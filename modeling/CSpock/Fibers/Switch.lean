import CSpock.Fibers.Asm

/-! What a call of `vgc_jump` does to the machine, whoever calls it, and what a call of
`vgc_make` leaves to jump to. -/
namespace CSpock.Fibers.Asm
open CSpock.Library.Memory CSpock.Library.X64

namespace Context

/-- The memory after `vgc_jump` has saved a context. The return address is in its place already. -/
def save (context : Context) (memory : Bytes) (ctx : Address) : Bytes :=
  store (store (store (store (store (store (store (store (store memory ctx context.mxcsr) (ctx + 0x4#64)
    context.controlWord) (ctx + 0x8#64) context.r12) (ctx + 0x10#64) context.r13) (ctx + 0x18#64) context.r14)
    (ctx + 0x20#64) context.r15) (ctx + 0x28#64) context.rbx) (ctx + 0x30#64) context.rbp) (ctx + 0x38#64) context.slot

/-- The processor of who goes on at `ctx`, with `fiber` in the registers that it may not rely on. -/
def resume (context : Context) (ctx : Address) (fiber : VgcFiber) (cpu : Cpu) : Cpu where
  register
    | .rax => context.slot
    | .rbx => context.rbx
    | .rcx => fiber.fd
    | .rdx => context.rip
    | .rsi => fiber.data
    | .rdi => fiber.ctx
    | .rbp => context.rbp
    | .rsp => ctx + 0x48#64
    | .r12 => context.r12
    | .r13 => context.r13
    | .r14 => context.r14
    | .r15 => context.r15
    | other => cpu.register other
  mxcsr := context.mxcsr
  controlWord := context.controlWord

theorem read_save (memory : Bytes) (ctx : Address) (context : Context) :
    read (context.save memory ctx) ctx = { context with rip := load 64 memory (ctx + 0x40#64) } := by
  simp (disch := first | decide | (simp only [apart_add,apart_offset,offset_apart]; decide)) only
    [read,save,load_store,load_store_apart]

theorem save_outside {memory : Bytes} {ctx place : Address} {context : Context} (outside : ¬Within place ctx 0x40) :
    context.save memory ctx place = memory place := by
  have start : ¬Within place ctx (32 / 8) := fun within => outside (Nat.lt_trans within (by decide))
  simp (disch := decide) only [save,store_field outside,store_outside start]

theorem read_congr {memory memory' : Bytes} {ctx : Address}
    (same : ∀ place, Within place ctx size → memory place = memory' place) : read memory ctx = read memory' ctx := by
  have field : ∀ (offset : Address) (width : Nat), 8 ∣ width → width / 8 ≤ 2^64 → offset.toNat + width / 8 ≤ size →
      load width memory (ctx + offset) = load width memory' (ctx + offset) := fun offset width bytes small fits =>
    load_congr bytes small fun place within => same place ((inside_add ctx offset fits).within within)
  have start := field 0#64 32 (by decide) (by decide) (by decide)
  rw [BitVec.add_zero] at start
  simp (disch := decide) only [read,start,field]

end Context

namespace VgcFiber

theorem read_write (memory : Bytes) (address : Address) (fiber : VgcFiber) :
    read (fiber.write memory address) address = fiber := by
  simp (disch := first | decide | (simp only [apart_add,apart_offset,offset_apart]; decide)) only
    [read,write,load_store,load_store_apart]

theorem read_congr {memory memory' : Bytes} {address : Address}
    (same : ∀ place, Within place address 0x18 → memory place = memory' place) :
    read memory address = read memory' address := by
  have field : ∀ offset : Address, offset.toNat + 8 ≤ 0x18 →
      load 64 memory (address + offset) = load 64 memory' (address + offset) := fun offset fits =>
    load_congr (by decide) (by decide) fun place within => same place ((inside_add address offset fits).within within)
  have start := field 0#64 (by decide)
  rw [BitVec.add_zero] at start
  simp (disch := decide) only [read,start,field]

theorem write_outside {memory : Bytes} {address place : Address} {fiber : VgcFiber}
    (outside : ¬Within place address 0x18) : fiber.write memory address place = memory place := by
  have start : ¬Within place address (64 / 8) := fun within => outside (Nat.lt_trans within (by decide))
  simp (disch := decide) only [write,store_field outside,store_outside start]

end VgcFiber

/-! A call of `vgc_jump`: the return address is on top of the stack, the argument above it. -/
namespace Call
variable (machine : Machine)

def fiber : VgcFiber := VgcFiber.read machine.memory (machine.register .rsp + 0x8#64)

def ctx : Address := machine.register .rsp - 0x40#64

def context : Context where
  mxcsr := machine.mxcsr
  controlWord := machine.controlWord
  r12 := machine.register .r12
  r13 := machine.register .r13
  r14 := machine.register .r14
  r15 := machine.register .r15
  rbx := machine.register .rbx
  rbp := machine.register .rbp
  slot := machine.register .rdi
  rip := load 64 machine.memory (machine.register .rsp)

def parked : Bytes := (context machine).save machine.memory (ctx machine)

/-- What the one that goes on is given: the caller's data and the place to go back to. -/
def given : VgcFiber := { fiber machine with ctx := ctx machine }

def goal : Context := Context.read (parked machine) (fiber machine).ctx

def resumed : Machine where
  toCpu := (goal machine).resume (fiber machine).ctx (given machine) machine.toCpu
  memory := (given machine).write (parked machine) (goal machine).slot

end Call

section Phases
variable (place : Label → Address) (machine : Machine)

theorem execute_grab : execute place machine VgcJump.grab =
    ((machine.put .rsi (Call.fiber machine).data).put .rdx (Call.fiber machine).ctx).put .rcx
      (Call.fiber machine).fd := by
  simp [VgcJump.grab,Instruction.run,Call.fiber,VgcFiber.read,BitVec.add_assoc]

theorem execute_save : execute place machine VgcJump.save =
    { machine.put .rsp (Call.ctx machine) with memory := Call.parked machine } := by
  simp [VgcJump.save,Instruction.run,Machine.write,Call.parked,Context.save,Call.context,Call.ctx]

theorem execute_switch : execute place machine VgcJump.switch =
    (machine.put .rdi (machine.register .rsp)).put .rsp (machine.register .rdx) := by
  simp [VgcJump.switch,Instruction.run]

/-- The registers of the caller with the ones of a context over them. -/
def Context.over (context : Context) (registers : Register → BitVec 64) : Register → BitVec 64
  | .rax => context.slot
  | .rbx => context.rbx
  | .rdx => context.rip
  | .rbp => context.rbp
  | .r12 => context.r12
  | .r13 => context.r13
  | .r14 => context.r14
  | .r15 => context.r15
  | other => registers other

theorem execute_restore : execute place machine VgcJump.restore =
    (let context := Context.read machine.memory (machine.register .rsp)
     { register := context.over machine.register
       mxcsr := context.mxcsr
       controlWord := context.controlWord
       memory := machine.memory }) := by
  refine Machine.ext (funext fun register => ?_) ?_ ?_ ?_
  · cases register <;> simp [VgcJump.restore,Instruction.run,Context.read,Context.over]
  all_goals simp [VgcJump.restore,Instruction.run,Context.read]

theorem execute_deliver : execute place machine VgcJump.deliver =
    { machine.put .rsp (machine.register .rsp + 0x48#64) with
      memory := VgcFiber.write machine.memory (machine.register .rax)
        ⟨machine.register .rsi,machine.register .rdi,machine.register .rcx⟩ } := by
  refine Machine.ext (funext fun register => ?_) ?_ ?_ ?_ <;> simp [VgcJump.deliver,Instruction.run,VgcFiber.write]

/-- The registers of the caller when the stack has changed. -/
def Call.left (registers : Register → BitVec 64) (fiber : VgcFiber) (ctx : Address) : Register → BitVec 64
  | .rsi => fiber.data
  | .rdx => fiber.ctx
  | .rcx => fiber.fd
  | .rdi => ctx
  | .rsp => fiber.ctx
  | other => registers other

theorem resume_left (context : Context) (there : Address) (given fiber : VgcFiber) (ctx : Address) (cpu : Cpu) :
    context.resume there given { cpu with register := Call.left cpu.register fiber ctx } =
      context.resume there given cpu := by
  refine Cpu.ext (funext fun register => ?_) rfl rfl
  cases register <;> rfl

theorem leave : execute place machine (VgcJump.grab ++ (VgcJump.save ++ VgcJump.switch)) =
    { machine with
      register := Call.left machine.register (Call.fiber machine) (Call.ctx machine)
      memory := Call.parked machine } := by
  have parked : Call.parked (execute place machine VgcJump.grab) = Call.parked machine := by
    simp [execute_grab,Call.parked,Call.context,Call.ctx]
  have ctx : Call.ctx (execute place machine VgcJump.grab) = Call.ctx machine := by
    simp [execute_grab,Call.ctx]
  rw [execute_append,execute_append,execute_switch,execute_save,parked,ctx,execute_grab]
  refine Machine.ext (funext fun register => ?_) rfl rfl rfl
  cases register <;> simp [Call.left]

theorem arrive : execute place machine (VgcJump.restore ++ VgcJump.deliver) =
    (let context := Context.read machine.memory (machine.register .rsp)
     let given := ⟨machine.register .rsi,machine.register .rdi,machine.register .rcx⟩
     { toCpu := context.resume (machine.register .rsp) given machine.toCpu
       memory := VgcFiber.write machine.memory context.slot given }) := by
  rw [execute_append,execute_deliver,execute_restore]
  -- The context is read from the memory in ten places, and never looked into.
  generalize Context.read machine.memory (machine.register .rsp) = context
  refine Machine.ext (funext fun register => ?_) rfl rfl rfl
  cases register <;> simp [Context.over,Context.resume]

end Phases

theorem vgcJump_run (place : Label → Address) (machine : Machine) :
    vgcJump.run place machine = (Call.resumed machine,.goto (Call.goal machine).rip) := by
  have parts : vgcJump.body =
      (VgcJump.grab ++ (VgcJump.save ++ VgcJump.switch)) ++ (VgcJump.restore ++ VgcJump.deliver) := rfl
  have body : execute place machine vgcJump.body = Call.resumed machine := by
    rw [parts,execute_append,leave,arrive]
    simp only [Call.left,resume_left]
    rfl
  rw [Block.run,body]
  rfl

namespace Call
variable {machine : Machine}

theorem read_parked : Context.read (parked machine) (ctx machine) = context machine := by
  have top : ctx machine + 0x40#64 = machine.register .rsp := by
    simp [ctx]
  rw [parked,Context.read_save,top]
  rfl

theorem parked_outside {place : Address} (outside : ¬Within place (ctx machine) 0x40) :
    parked machine place = machine.memory place := Context.save_outside outside

/-- A context that is not overwritten by the one of the caller is gone on with as it is. -/
theorem goal_apart (apart : Apart (fiber machine).ctx Context.size (ctx machine) Context.size) :
    goal machine = Context.read machine.memory (fiber machine).ctx :=
  Context.read_congr fun _ within => parked_outside fun saved => apart.disjoint within (Nat.lt_trans saved (by decide))

theorem read_slot : VgcFiber.read (resumed machine).memory (goal machine).slot = given machine :=
  VgcFiber.read_write ..

theorem resumed_outside {place : Address} (saved : ¬Within place (ctx machine) 0x40)
    (delivered : ¬Within place (goal machine).slot 0x18) : (resumed machine).memory place = machine.memory place :=
  (VgcFiber.write_outside delivered).trans (parked_outside saved)

end Call

namespace Make
variable (place : Label → Address) (machine : Machine)

def ctx : Address := machine.register .rdi - 0x68#64

/-- The registers that are not written get what is in the new stack. -/
def context : Context :=
  { Context.read machine.memory (ctx machine) with
    mxcsr := machine.mxcsr
    controlWord := machine.controlWord
    rbx := machine.register .rdx
    rbp := place .finish
    slot := ctx machine + 0x48#64
    rip := place .trampoline }

def memory : Bytes :=
  store (store (store (store (store (store machine.memory (ctx machine) machine.mxcsr) (ctx machine + 0x4#64)
    machine.controlWord) (ctx machine + 0x28#64) (machine.register .rdx)) (ctx machine + 0x38#64)
    (ctx machine + 0x48#64)) (ctx machine + 0x30#64) (place .finish)) (ctx machine + 0x40#64) (place .trampoline)

theorem read_memory : Context.read (memory place machine) (ctx machine) = context place machine := by
  simp (disch := first | decide | (simp only [apart_add,apart_offset,offset_apart]; decide)) only
    [Context.read,memory,load_store,load_store_apart,context]

theorem memory_outside {address : Address} (outside : ¬Within address (ctx machine) Context.size) :
    memory place machine address = machine.memory address := by
  have start : ¬Within address (ctx machine) (32 / 8) := fun within => outside (Nat.lt_trans within (by decide))
  simp (disch := decide) only [memory,store_field outside,store_outside start]

def returned : Machine where
  register
    | .rax => ctx machine
    | .rcx => place .trampoline
    | .rsp => machine.register .rsp + 8#64
    | other => machine.register other
  mxcsr := machine.mxcsr
  controlWord := machine.controlWord
  memory := memory place machine

end Make

theorem vgcMake_run (place : Label → Address) (machine : Machine) :
    vgcMake.run place machine =
      (Make.returned place machine,.goto (load 64 (Make.memory place machine) (machine.register .rsp))) := by
  have memory : (execute place machine vgcMake.body).memory = Make.memory place machine := by
    simp [vgcMake,Instruction.run,Make.memory,Make.ctx]
  have registers : ∀ register, (execute place machine vgcMake.body).register register =
      if register = .rsp then machine.register .rsp else (Make.returned place machine).register register := by
    intro register
    cases register <;> simp [vgcMake,Instruction.run,Make.returned,Make.ctx]
  have top := registers .rsp
  simp only [if_pos] at top
  rw [Block.run]
  simp only [vgcMake,Exit.run] at memory registers top ⊢
  rw [memory,top]
  refine Prod.ext (Machine.ext (funext fun register => ?_) ?_ ?_ memory) rfl
  · rw [Machine.put_register,registers]
    split
    next here => rw [here]; rfl
    next => rfl
  all_goals simp [Instruction.run,Make.returned]

end CSpock.Fibers.Asm
