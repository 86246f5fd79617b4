import CSpock.Library.X64

/-! The context switch of `fibers/asm/x86_64_sysv_elf_nasm.asm` and the calls of `fiber.c`
that prepare it. -/
namespace CSpock.Fibers.Asm
open CSpock.Library.Memory CSpock.Library.X64

inductive Label where
  | finish
  | trampoline
  deriving Repr, DecidableEq

def vgcMake : Block Label where
  body := [
    .mov .rax .rdi,
    .sub .rax 0x68#64,
    .stmxcsr .rax 0#64,
    .fnstcw .rax 0x4#64,
    .store .rax 0x28#64 .rdx,
    .lea .rcx .rax 0x48#64,
    .store .rax 0x38#64 .rcx,
    .leaRel .rcx .finish,
    .store .rax 0x30#64 .rcx,
    .leaRel .rcx .trampoline,
    .store .rax 0x40#64 .rcx]
  exit := .ret

def trampoline : Block Label := ⟨[.push .rbp],.jmp .rbx⟩

/-- The `hlt` behind the call of `_exit` is not reached. -/
def finish : Block Label := ⟨[.xor .rdi .rdi,.set .rax 60#64],.syscall⟩

namespace VgcJump

def grab : List (Instruction Label) := [
  .load .rsi .rsp 0x8#64,
  .load .rdx .rsp 0x10#64,
  .load .rcx .rsp 0x18#64]

def save : List (Instruction Label) := [
  .sub .rsp 0x40#64,
  .stmxcsr .rsp 0#64,
  .fnstcw .rsp 0x4#64,
  .store .rsp 0x8#64 .r12,
  .store .rsp 0x10#64 .r13,
  .store .rsp 0x18#64 .r14,
  .store .rsp 0x20#64 .r15,
  .store .rsp 0x28#64 .rbx,
  .store .rsp 0x30#64 .rbp,
  .store .rsp 0x38#64 .rdi]

def switch : List (Instruction Label) := [
  .mov .rdi .rsp,
  .mov .rsp .rdx]

def restore : List (Instruction Label) := [
  .ldmxcsr .rsp 0#64,
  .fldcw .rsp 0x4#64,
  .load .r12 .rsp 0x8#64,
  .load .r13 .rsp 0x10#64,
  .load .r14 .rsp 0x18#64,
  .load .r15 .rsp 0x20#64,
  .load .rbx .rsp 0x28#64,
  .load .rbp .rsp 0x30#64,
  .load .rax .rsp 0x38#64,
  .load .rdx .rsp 0x40#64]

def deliver : List (Instruction Label) := [
  .store .rax 0#64 .rsi,
  .store .rax 0x8#64 .rdi,
  .store .rax 0x10#64 .rcx,
  .add .rsp 0x48#64]

end VgcJump

def vgcJump : Block Label :=
  ⟨VgcJump.grab ++ (VgcJump.save ++ (VgcJump.switch ++ (VgcJump.restore ++ VgcJump.deliver))),.jmp .rdx⟩

/-- `vgc_fiber`, a structure of three pointers. -/
structure VgcFiber where
  data : BitVec 64
  ctx : Address
  fd : Address
  deriving Repr, DecidableEq

namespace VgcFiber

def read (memory : Bytes) (address : Address) : VgcFiber where
  data := load 64 memory address
  ctx := load 64 memory (address + 0x8#64)
  fd := load 64 memory (address + 0x10#64)

def write (memory : Bytes) (address : Address) (fiber : VgcFiber) : Bytes :=
  store (store (store memory address fiber.data) (address + 0x8#64) fiber.ctx) (address + 0x10#64) fiber.fd

end VgcFiber

/-- The table at the head of the file: what is kept of who does not run. `slot` is where
the call of `vgc_jump` returns its structure. -/
structure Context where
  mxcsr : BitVec 32
  controlWord : BitVec 16
  r12 : BitVec 64
  r13 : BitVec 64
  r14 : BitVec 64
  r15 : BitVec 64
  rbx : BitVec 64
  rbp : BitVec 64
  slot : Address
  rip : Address
  deriving Repr, DecidableEq

namespace Context

def size : Nat := 0x48

def read (memory : Bytes) (ctx : Address) : Context where
  mxcsr := load 32 memory ctx
  controlWord := load 16 memory (ctx + 0x4#64)
  r12 := load 64 memory (ctx + 0x8#64)
  r13 := load 64 memory (ctx + 0x10#64)
  r14 := load 64 memory (ctx + 0x18#64)
  r15 := load 64 memory (ctx + 0x20#64)
  rbx := load 64 memory (ctx + 0x28#64)
  rbp := load 64 memory (ctx + 0x30#64)
  slot := load 64 memory (ctx + 0x38#64)
  rip := load 64 memory (ctx + 0x40#64)

end Context

structure FiberStack where
  stackLimit : Address
  stackBase : Address
  deriving Repr, DecidableEq

def vgcFiberInit (buf : Address) (size : BitVec 64) : FiberStack := ⟨buf,(buf + (size - 1#64)) &&& ~~~15#64⟩

end CSpock.Fibers.Asm
