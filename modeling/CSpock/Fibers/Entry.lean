import CSpock.Fibers.Switch

/-! A fiber's first instructions: from the buffer that `vgc_fiber_init` is given to the
procedure of the job. -/
namespace CSpock.Fibers.Asm
open CSpock.Library.Memory CSpock.Library.X64

section Stack
variable {buf : Address} {size : BitVec 64}

theorem stackBase_eq (buf : Address) (size : BitVec 64) :
    (vgcFiberInit buf size).stackBase = buf + (size - 1#64) - ((buf + (size - 1#64)) &&& 15#64) := by
  generalize top : buf + (size - 1#64) = last
  have parts : (last &&& ~~~15#64) + (last &&& 15#64) = last := by
    rw [BitVec.add_eq_or_of_and_eq_zero]
    · ext index
      simp only [BitVec.getElem_or,BitVec.getElem_and,BitVec.getElem_not]
      cases last[index] <;> cases (15#64)[index] <;> rfl
    · ext index
      simp only [BitVec.getElem_and,BitVec.getElem_not,BitVec.getElem_zero]
      cases last[index] <;> cases (15#64)[index] <;> rfl
  simp only [vgcFiberInit,top]
  exact eq_sub_of_add_eq parts

theorem low_bits (last : BitVec 64) : (last &&& 15#64).toNat = last.toNat % 16 := by
  rw [BitVec.toNat_and]
  exact Nat.and_two_pow_sub_one_eq_mod last.toNat 4

theorem stackBase_aligned (buf : Address) (size : BitVec 64) : (vgcFiberInit buf size).stackBase.toNat % 16 = 0 := by
  rw [stackBase_eq]
  generalize buf + (size - 1#64) = last
  have low := low_bits last
  bv_omega

theorem stackBase_inside {depth : BitVec 64} (room : depth.toNat + 16 ≤ size.toNat) :
    Inside ((vgcFiberInit buf size).stackBase - depth) depth.toNat buf size.toNat := by
  have low := low_bits (buf + (size - 1#64))
  rw [Inside,stackBase_eq]
  bv_omega

end Stack

section Code
variable (place : Label → Address) (machine : Machine)

theorem trampoline_run : trampoline.run place machine =
    ((machine.put .rsp (machine.register .rsp - 8#64)).write (machine.register .rsp - 8#64) (machine.register .rbp),
      .goto (machine.register .rbx)) := by
  simp [Block.run,trampoline,Instruction.run,Exit.run]

/-- A procedure that returns ends the process. -/
theorem finish_run : (finish.run place machine).2 = .kernel 60#64 0#64 := by
  simp [Block.run,finish,Instruction.run,Exit.run]

end Code

section Enter
variable {place : Label → Address} {buf : Address} {size : BitVec 64} {maker caller : Machine}

/-- The context of a new fiber is what a call of `vgc_jump` goes on with, if nobody has written to it. -/
theorem goal_made (base : maker.register .rdi = (vgcFiberInit buf size).stackBase) (room : 0x78 ≤ size.toNat)
    (target : (Call.fiber caller).ctx = Make.ctx maker)
    (kept : ∀ address, Within address (Make.ctx maker) Context.size →
      caller.memory address = Make.memory place maker address)
    (apart : Apart buf size.toNat (Call.ctx caller) Context.size) : Call.goal caller = Make.context place maker := by
  have inside : Inside (Make.ctx maker) 0x68 buf size.toNat := by
    rw [Make.ctx,base]
    exact stackBase_inside room
  have frame : Inside (Make.ctx maker) Context.size buf size.toNat := by
    unfold Inside Context.size at *
    omega
  rw [Call.goal_apart (by rw [target]; exact apart.narrow frame (by decide) (by decide)),target,
    Context.read_congr kept,Make.read_memory]

theorem vgcMake_enters (base : maker.register .rdi = (vgcFiberInit buf size).stackBase) (room : 0x78 ≤ size.toNat)
    (target : (Call.fiber caller).ctx = (vgcMake.run place maker).1.register .rax)
    (kept : ∀ address, Within address (Make.ctx maker) Context.size →
      caller.memory address = (vgcMake.run place maker).1.memory address)
    (apart : Apart buf size.toNat (Call.ctx caller) Context.size) :
    (vgcJump.run place caller).2 = .goto (place .trampoline) ∧
    let entered := trampoline.run place (vgcJump.run place caller).1
    let stack := entered.1.register .rsp
    entered.2 = .goto (maker.register .rdx) ∧ (stack + 8#64).toNat % 16 = 0 ∧ Inside stack 0x20 buf size.toNat ∧
      load 64 entered.1.memory stack = place .finish ∧
      VgcFiber.read entered.1.memory (stack + 8#64) = Call.given caller ∧
      Context.read entered.1.memory (Call.ctx caller) = Call.context caller ∧
      entered.1.mxcsr = maker.mxcsr ∧ entered.1.controlWord = maker.controlWord := by
  rw [vgcMake_run] at target kept
  have goal := goal_made base room target kept apart
  have slot : (Call.goal caller).slot = Make.ctx maker + 0x48#64 := by rw [goal]; rfl
  have top : (Call.resumed caller).register .rsp - 8#64 = Make.ctx maker + 0x40#64 := by
    have moved : (Call.resumed caller).register .rsp = Make.ctx maker + 0x48#64 := congrArg (· + 0x48#64) target
    rw [moved]
    bv_omega
  have above : Make.ctx maker + 0x40#64 + 8#64 = Make.ctx maker + 0x48#64 := by bv_omega
  have finish : (Call.resumed caller).register .rbp = place .finish := by
    change (Call.goal caller).rbp = _
    rw [goal]
    rfl
  have inside : Inside (Make.ctx maker) 0x68 buf size.toNat := by
    rw [Make.ctx,base]
    exact stackBase_inside room
  have here : Inside (Make.ctx maker + 0x40#64) 0x20 buf size.toNat :=
    (inside_add _ _ (by decide)).trans inside
  have aligned : (Make.ctx maker + 0x48#64).toNat % 16 = 0 := by
    have even := stackBase_aligned buf size
    rw [Make.ctx,base]
    bv_omega
  rw [vgcJump_run,goal]
  refine ⟨rfl,?_⟩
  simp only [trampoline_run,top,finish,Machine.write_toCpu,Machine.put_register,Machine.write_memory,Machine.put_memory,
    if_true,above,Leaves.goto.injEq]
  refine ⟨congrArg Context.rbx goal,aligned,here,load_store (by decide) (by decide) _,?_,?_,congrArg Context.mxcsr goal,
    congrArg Context.controlWord goal⟩
  · rw [← slot,← Call.read_slot]
    refine VgcFiber.read_congr fun address within => store_outside ?_
    rw [slot] at within
    exact Apart.disjoint (by simp only [apart_add]; decide) within
  · rw [← Call.read_parked]
    refine Context.read_congr fun address within => ?_
    have outside : ¬Within address (Make.ctx maker + 0x40#64) 0x20 := fun there =>
      apart.disjoint (here.within there) within
    rw [store_outside fun there => outside (Nat.lt_trans there (by decide))]
    refine VgcFiber.write_outside fun there => outside ?_
    rw [slot] at there
    unfold Within at *
    bv_omega

end Enter

/-! One call of `vgc_make` and the call of `vgc_jump` that follows. -/
section Sample

def samplePlace : Label → Address
  | .finish => 0x400000#64
  | .trampoline => 0x400010#64

def sampleCpu (rdi : Address) : Cpu where
  register
    | .rdi => rdi
    | .rsp => 0x100800#64
    | .rdx => 0x400100#64
    | _ => 0#64
  mxcsr := 0x1f80#32
  controlWord := 0x37f#16

def sampleMaker : Machine := ⟨sampleCpu 0x200ff0#64,fun _ => 0#8⟩

def sampleCaller : Machine :=
  ⟨sampleCpu 0x100900#64,
    VgcFiber.write (Make.memory samplePlace sampleMaker) 0x100808#64 ⟨7#64,0x200f88#64,0x300000#64⟩⟩

theorem sampleCaller_enters : (vgcJump.run samplePlace sampleCaller).2 = .goto (samplePlace .trampoline) ∧
    let entered := trampoline.run samplePlace (vgcJump.run samplePlace sampleCaller).1
    let stack := entered.1.register .rsp
    entered.2 = .goto 0x400100#64 ∧ (stack + 8#64).toNat % 16 = 0 ∧ Inside stack 0x20 0x200000#64 0x1000 ∧
      load 64 entered.1.memory stack = samplePlace .finish ∧
      VgcFiber.read entered.1.memory (stack + 8#64) = Call.given sampleCaller ∧
      Context.read entered.1.memory (Call.ctx sampleCaller) = Call.context sampleCaller ∧
      entered.1.mxcsr = 0x1f80#32 ∧ entered.1.controlWord = 0x37f#16 := by
  have base : sampleMaker.register .rdi = (vgcFiberInit 0x200000#64 0x1000#64).stackBase := by decide
  have read : Call.fiber sampleCaller = ⟨7#64,0x200f88#64,0x300000#64⟩ := VgcFiber.read_write ..
  refine vgcMake_enters base (by decide) ?_ (fun address within => ?_) (by decide)
  · rw [vgcMake_run,read]
    rfl
  · rw [vgcMake_run]
    have apart : Apart 0x200f88#64 Context.size 0x100808#64 0x18 := by decide
    exact VgcFiber.write_outside (apart.disjoint within)

end Sample

end CSpock.Fibers.Asm
