/-
Instructions of the stack machine.

An instruction refers to jump targets by `Handle`, never by position, so code can move without its jumps changing.

- `stackEffect`: how many values an instruction takes and leaves. A return is counted as taking none, since that depends
  on the method it returns from; that `leave` and `endfinally` empty the stack is not counted either.
- `target?`, `isTerminal`: where control goes besides, or instead of, the next instruction.
- `mnemonic`, `text`: how an instruction is written, with jump targets as handles.
-/
import DisposalWeaver.Text.Quoted
import DisposalWeaver.TypeGraph.Spelling

namespace DisposalWeaver

/-- handle of an instruction within one body -/
structure Handle where
  number : Nat
  deriving DecidableEq, Repr, Inhabited

/-- a handle as it is shown: `i3` -/
def Handle.text (handle : Handle) : String := s!"i{handle.number}"

/-- an instruction; encodings of different length are one instruction here -/
inductive Instruction where
  | nop
  | ldarg (index : UInt16)
  | starg (index : UInt16)
  | ldloc (index : UInt16)
  | ldloca (index : UInt16)
  | stloc (index : UInt16)
  | ldnull
  | ldc (value : Int32)
  | ldstr (value : String)
  | ldfld (field : FieldRef)
  | ldflda (field : FieldRef)
  | stfld (field : FieldRef)
  | ldsfld (field : FieldRef)
  | stsfld (field : FieldRef)
  | dup
  | pop
  | add
  | ceq
  | call (method : MethodRef)
  | callvirt (method : MethodRef)
  /-- announces that the receiver of the next `callvirt` is a pointer to a value of the given type -/
  | constrained (type : TypeRef)
  | newobj (method : MethodRef)
  | box (type : TypeRef)
  | br (target : Handle)
  | brtrue (target : Handle)
  | brfalse (target : Handle)
  /-- exits protected regions, running their `finally` handlers on the way -/
  | leave (target : Handle)
  | endfinally
  | throw
  | ret
  deriving DecidableEq, Repr, Inhabited

namespace Instruction

/-- values taken and values left -/
def stackEffect (g : TypeGraph) : Instruction → Nat × Nat
  | nop | br _ | leave _ | endfinally | ret | constrained _ => (0, 0)
  | ldarg _ | ldloc _ | ldloca _ | ldnull | ldc _ | ldstr _ | ldsfld _ => (0, 1)
  | starg _ | stloc _ | stsfld _ | pop | brtrue _ | brfalse _ | throw => (1, 0)
  | ldfld _ | ldflda _ | box _ => (1, 1)
  | stfld _ => (2, 0)
  | dup => (1, 2)
  | add | ceq => (2, 1)
  | call m | callvirt m => ((g.method m.method).argumentCount, (g.method m.method).resultCount)
  | newobj m => ((g.method m.method).parameters.length, 1)

/-- jump target, if there is one -/
def target? : Instruction → Option Handle
  | br target | brtrue target | brfalse target | leave target => some target
  | _ => none

/-- does control never go on to the next instruction? -/
def isTerminal : Instruction → Bool
  | br _ | leave _ | endfinally | throw | ret => true
  | _ => false

def mnemonic : Instruction → String
  | nop => "nop"
  | ldarg _ => "ldarg"
  | starg _ => "starg"
  | ldloc _ => "ldloc"
  | ldloca _ => "ldloca"
  | stloc _ => "stloc"
  | ldnull => "ldnull"
  | ldc _ => "ldc.i4"
  | ldstr _ => "ldstr"
  | ldfld _ => "ldfld"
  | ldflda _ => "ldflda"
  | stfld _ => "stfld"
  | ldsfld _ => "ldsfld"
  | stsfld _ => "stsfld"
  | dup => "dup"
  | pop => "pop"
  | add => "add"
  | ceq => "ceq"
  | call _ => "call"
  | callvirt _ => "callvirt"
  | constrained _ => "constrained."
  | newobj _ => "newobj"
  | box _ => "box"
  | br _ => "br"
  | brtrue _ => "brtrue"
  | brfalse _ => "brfalse"
  | leave _ => "leave"
  | endfinally => "endfinally"
  | throw => "throw"
  | ret => "ret"

/-- small argument and local numbers are part of the mnemonic -/
def indexText (index : UInt16) : String :=
  if index.toNat ≤ 3 then s!".{index.toNat}" else s!" {index.toNat}"

/-- small constants are part of the mnemonic -/
def constantText (value : Int32) : String :=
  let n := value.toInt
  if n = -1 then ".m1" else if 0 ≤ n ∧ n ≤ 8 then s!".{n}" else s!" {n}"

/-- the instruction with its operand -/
def text (g : TypeGraph) (instruction : Instruction) : String :=
  instruction.mnemonic ++
    match instruction with
    | ldarg n | starg n | ldloc n | stloc n => indexText n
    | ldloca n => s!" {n.toNat}"
    | ldc n => constantText n
    | ldstr s => " " ++ Text.quoted s
    | ldfld f | ldflda f | stfld f | ldsfld f | stsfld f => " " ++ g.fieldText f
    | call m | callvirt m | newobj m => " " ++ g.methodText m
    | constrained t | box t => " " ++ g.typeText t
    | br target | brtrue target | brfalse target | leave target => " " ++ target.text
    | _ => ""

/-- the call that runs overrides of a virtual method, and exactly the given method otherwise -/
def callTo (g : TypeGraph) (m : MethodRef) : Instruction :=
  if (g.method m.method).isVirtual then .callvirt m else .call m

end Instruction

end DisposalWeaver
