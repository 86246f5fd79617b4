import CSpock.Library.Memory

/-! The part of the x86-64 instruction set that switches a stack: moves, address arithmetic
and the two floating point control words. No modelled instruction reads the flags. -/
namespace CSpock.Library.X64
open CSpock.Library.Memory

inductive Register where
  | rax
  | rbx
  | rcx
  | rdx
  | rsi
  | rdi
  | rbp
  | rsp
  | r8
  | r9
  | r10
  | r11
  | r12
  | r13
  | r14
  | r15
  deriving Repr, DecidableEq

@[ext]
structure Cpu where
  register : Register → BitVec 64
  mxcsr : BitVec 32
  controlWord : BitVec 16

@[ext]
structure Machine extends Cpu where
  memory : Bytes

inductive Instruction (Label : Type) where
  | mov (target source : Register)
  | set (target : Register) (value : BitVec 64)
  | load (target base : Register) (offset : BitVec 64)
  | store (base : Register) (offset : BitVec 64) (source : Register)
  | add (target : Register) (value : BitVec 64)
  | sub (target : Register) (value : BitVec 64)
  | xor (target source : Register)
  /-- `lea target, [base + offset]` -/
  | lea (target base : Register) (offset : BitVec 64)
  /-- `lea target, [rel label]` -/
  | leaRel (target : Register) (label : Label)
  | push (source : Register)
  | stmxcsr (base : Register) (offset : BitVec 64)
  | ldmxcsr (base : Register) (offset : BitVec 64)
  | fnstcw (base : Register) (offset : BitVec 64)
  | fldcw (base : Register) (offset : BitVec 64)

inductive Exit where
  | jmp (target : Register)
  | ret
  | syscall
  deriving Repr, DecidableEq

/-- Straight-line code and what ends it. -/
structure Block (Label : Type) where
  body : List (Instruction Label)
  exit : Exit

/-- Where control goes: to an address, or into the kernel with a number and a first argument. -/
inductive Leaves where
  | goto (address : Address)
  | kernel (number argument : BitVec 64)
  deriving Repr, DecidableEq

namespace Machine

def put (machine : Machine) (target : Register) (value : BitVec 64) : Machine :=
  { machine with register := Function.update machine.register target value }

def write {width : Nat} (machine : Machine) (address : Address) (value : BitVec width) : Machine :=
  { machine with memory := Memory.store machine.memory address value }

section Fields
variable (machine : Machine) (target other : Register) (value : BitVec 64) {width : Nat} (address : Address)
  (word : BitVec width)

@[simp] theorem put_register :
    (machine.put target value).register other = if other = target then value else machine.register other := by
  simp [put,Function.update_apply]

@[simp] theorem put_mxcsr : (machine.put target value).mxcsr = machine.mxcsr := rfl

@[simp] theorem put_controlWord : (machine.put target value).controlWord = machine.controlWord := rfl

@[simp] theorem put_memory : (machine.put target value).memory = machine.memory := rfl

@[simp] theorem write_toCpu : (machine.write address word).toCpu = machine.toCpu := rfl

@[simp] theorem write_memory : (machine.write address word).memory = Memory.store machine.memory address word := rfl

end Fields

end Machine

/-- `place` is where the linker has put the labels. -/
def Instruction.run {Label : Type} (place : Label → Address) (machine : Machine) : Instruction Label → Machine
  | .mov target source => machine.put target (machine.register source)
  | .set target value => machine.put target value
  | .load target base offset => machine.put target (Memory.load 64 machine.memory (machine.register base + offset))
  | .store base offset source => machine.write (machine.register base + offset) (machine.register source)
  | .add target value => machine.put target (machine.register target + value)
  | .sub target value => machine.put target (machine.register target - value)
  | .xor target source => machine.put target (machine.register target ^^^ machine.register source)
  | .lea target base offset => machine.put target (machine.register base + offset)
  | .leaRel target label => machine.put target (place label)
  | .push source =>
    (machine.put .rsp (machine.register .rsp - 8#64)).write (machine.register .rsp - 8#64) (machine.register source)
  | .stmxcsr base offset => machine.write (machine.register base + offset) machine.mxcsr
  | .ldmxcsr base offset =>
    { machine with mxcsr := Memory.load 32 machine.memory (machine.register base + offset) }
  | .fnstcw base offset => machine.write (machine.register base + offset) machine.controlWord
  | .fldcw base offset =>
    { machine with controlWord := Memory.load 16 machine.memory (machine.register base + offset) }

def Exit.run (machine : Machine) : Exit → Machine × Leaves
  | .jmp target => (machine,.goto (machine.register target))
  | .ret =>
    (machine.put .rsp (machine.register .rsp + 8#64),.goto (Memory.load 64 machine.memory (machine.register .rsp)))
  | .syscall => (machine,.kernel (machine.register .rax) (machine.register .rdi))

/-- The instructions of a piece of straight-line code. -/
def execute {Label : Type} (place : Label → Address) (machine : Machine) (body : List (Instruction Label)) : Machine :=
  body.foldl (Instruction.run place) machine

def Block.run {Label : Type} (place : Label → Address) (machine : Machine) (block : Block Label) : Machine × Leaves :=
  block.exit.run (execute place machine block.body)

section Execution
variable {Label : Type} (place : Label → Address) (machine : Machine)

@[simp] theorem execute_nil : execute place machine [] = machine := rfl

@[simp] theorem execute_cons (instruction : Instruction Label) (body : List (Instruction Label)) :
    execute place machine (instruction::body) = execute place (instruction.run place machine) body := rfl

theorem execute_append (first second : List (Instruction Label)) :
    execute place machine (first ++ second) = execute place (execute place machine first) second :=
  List.foldl_append

end Execution

end CSpock.Library.X64
