import CSpock.Fibers.Entry
import CSpock.Library.Transition

/-! Threads and fibers that pass the processor to each other by `vgc_jump`. What is asked of
the compiled code between two calls is that it leaves alone the contexts of those who wait. -/
set_option linter.unusedSectionVars false

namespace CSpock.Fibers.Asm
open CSpock.Library.Memory CSpock.Library.X64 CSpock.Library.Transition

/-- Who has a stack: a thread in `vgc_scheduler_run`, and a fiber. -/
inductive Party (Thread Fiber : Type) where
  | thread (thread : Thread)
  | fiber (fiber : Fiber)
  deriving DecidableEq

/-- Where the stacks and the `fiber_data` are. -/
structure Layout (Thread Fiber : Type) where
  place : Label → Address
  stack : Party Thread Fiber → Address
  size : Party Thread Fiber → BitVec 64
  fd : Fiber → Address
  apart : ∀ one two, one ≠ two → Apart (stack one) (size one).toNat (stack two) (size two).toNat
  room : ∀ party, 0x78 ≤ (size party).toNat

structure Core extends Cpu where
  rip : Address

/-- `running` has the fiber whose code a thread is in, with the structure that it goes back by.
`suspended` has what the scheduler keeps of a fiber that can be gone on with. -/
structure World (Thread Fiber : Type) where
  memory : Bytes
  core : Thread → Core
  running : Thread → Option (Fiber × VgcFiber)
  suspended : Fiber → Option VgcFiber

inductive Act (Fiber : Type) where
  /-- Code between the calls, of the scheduler or of a fiber. -/
  | work (core : Core) (memory : Bytes)
  /-- `vgc_fiber_assign`, and the data of the job. -/
  | assign (fiber : Fiber) (data : BitVec 64)
  /-- `*fiber = vgc_jump(*fiber)` in `vgc_scheduler_run`. -/
  | resume (fiber : Fiber)
  /-- `vgc_jump(fiber)` in a fiber that waits, or that has finished. -/
  | leave (waits : Bool)

namespace World
variable {Thread Fiber : Type} [DecidableEq Thread] [DecidableEq Fiber]

def machine (world : World Thread Fiber) (thread : Thread) : Machine := ⟨(world.core thread).toCpu,world.memory⟩

def party (world : World Thread Fiber) (thread : Thread) : Party Thread Fiber :=
  match world.running thread with
  | some (fiber,_) => .fiber fiber
  | none => .thread thread

/-- Where the context of a party is, by the structure that it is kept in. -/
def ctx (world : World Thread Fiber) : Party Thread Fiber → Option Address
  | .thread thread => (world.running thread).map fun running => running.2.ctx
  | .fiber fiber => (world.suspended fiber).map VgcFiber.ctx

def after (world : World Thread Fiber) (thread : Thread) (outcome : Machine × Leaves) : World Thread Fiber :=
  match outcome.2 with
  | .goto rip =>
    { world with
      memory := outcome.1.memory
      core := Function.update world.core thread ⟨outcome.1.toCpu,rip⟩ }
  | .kernel _ _ => world

def result (world : World Thread Fiber) (thread : Thread) : VgcFiber :=
  VgcFiber.read world.memory ((world.core thread).register .rax)

def step (layout : Layout Thread Fiber) (world : World Thread Fiber) :
    Thread × Act Fiber → Option (World Thread Fiber)
  | (thread,.work core memory) => some { world with core := Function.update world.core thread core,memory := memory }
  | (thread,.assign fiber data) =>
    let made := world.after thread (vgcMake.run layout.place (world.machine thread))
    let ctx := (made.core thread).register .rax
    some { made with suspended := Function.update made.suspended fiber (some ⟨data,ctx,layout.fd fiber⟩) }
  | (thread,.resume fiber) =>
    match world.running thread,world.suspended fiber with
    | none,some _ =>
      let jumped := world.after thread (vgcJump.run layout.place (world.machine thread))
      some { jumped with
        running := Function.update jumped.running thread (some (fiber,jumped.result thread))
        suspended := Function.update jumped.suspended fiber none }
    | _,_ => none
  | (thread,.leave waits) =>
    match world.running thread with
    | some (fiber,_) =>
      let jumped := world.after thread (vgcJump.run layout.place (world.machine thread))
      some { jumped with
        running := Function.update jumped.running thread none
        suspended := Function.update jumped.suspended fiber (if waits then some (jumped.result thread) else none) }
    | none => none

end World

section Discipline
variable {Thread Fiber : Type} [DecidableEq Thread] [DecidableEq Fiber]

/-- A call of `vgc_jump` with a structure, of which the data may have been changed. The place of
the context is on the caller's own stack, and that of the result is on no other one. -/
structure Calls (layout : Layout Thread Fiber) (world : World Thread Fiber) (thread : Thread) (fiber : VgcFiber) :
    Prop where
  ctx : (Call.fiber (world.machine thread)).ctx = fiber.ctx
  fd : (Call.fiber (world.machine thread)).fd = fiber.fd
  stack : Inside (Call.ctx (world.machine thread)) Context.size (layout.stack (world.party thread))
    (layout.size (world.party thread)).toNat
  slot : ∀ other, other ≠ world.party thread →
    Apart ((world.core thread).register .rdi) 0x18 (layout.stack other) (layout.size other).toNat

def permits (layout : Layout Thread Fiber) (world : World Thread Fiber) : Thread × Act Fiber → Prop
  | (_,.work _ memory) => ∀ party ctx, world.ctx party = some ctx →
      ∀ address, Within address ctx Context.size → memory address = world.memory address
  | (thread,.assign fiber _) =>
    (world.core thread).register .rdi =
        (vgcFiberInit (layout.stack (.fiber fiber)) (layout.size (.fiber fiber))).stackBase ∧
      ∀ other own, world.running other ≠ some (fiber,own)
  | (thread,.resume fiber) => ∀ kept, world.suspended fiber = some kept → Calls layout world thread kept
  | (thread,.leave _) => ∀ fiber own, world.running thread = some (fiber,own) →
      Calls layout world thread own

end Discipline

/-- What is to be found again by who waits: its context, and where it was put. -/
structure Note where
  ctx : Address
  context : Context

/-- The machine next to a notebook, which is written when somebody begins to wait and which
no step looks at. -/
structure Account (Thread Fiber : Type) where
  world : World Thread Fiber
  notes : Party Thread Fiber → Option Note

namespace Account
variable {Thread Fiber : Type} [DecidableEq Thread] [DecidableEq Fiber]

def note (layout : Layout Thread Fiber) (account : Account Thread Fiber) :
    Thread × Act Fiber → Party Thread Fiber → Option Note
  | (_,.work _ _) => account.notes
  | (thread,.assign fiber _) =>
    let machine := account.world.machine thread
    Function.update account.notes (.fiber fiber) (some ⟨Make.ctx machine,Make.context layout.place machine⟩)
  | (thread,.resume fiber) =>
    let machine := account.world.machine thread
    Function.update (Function.update account.notes (.thread thread) (some ⟨Call.ctx machine,Call.context machine⟩))
      (.fiber fiber) none
  | (thread,.leave waits) =>
    let machine := account.world.machine thread
    let left := if waits then some ⟨Call.ctx machine,Call.context machine⟩ else none
    Function.update (Function.update account.notes (account.world.party thread) left) (.thread thread) none

def step (layout : Layout Thread Fiber) (account : Account Thread Fiber) (label : Thread × Act Fiber) :
    Option (Account Thread Fiber) :=
  (account.world.step layout label).map fun after => ⟨after,account.note layout label⟩

end Account

/-- The context that was noted is in the memory, on the stack of the party. Who goes on with it is given its
structure outside of all other stacks. -/
structure Kept {Thread Fiber : Type} (layout : Layout Thread Fiber) (memory : Bytes) (party : Party Thread Fiber)
    (note : Note) : Prop where
  read : Context.read memory note.ctx = note.context
  stack : Inside note.ctx Context.size (layout.stack party) (layout.size party).toNat
  slot : ∀ other, other ≠ party → Apart note.context.slot 0x18 (layout.stack other) (layout.size other).toNat

structure Sound {Thread Fiber : Type} (layout : Layout Thread Fiber) (account : Account Thread Fiber) : Prop where
  ctx : ∀ party, account.world.ctx party = (account.notes party).map Note.ctx
  kept : ∀ party note, account.notes party = some note → Kept layout account.world.memory party note
  fd : ∀ thread fiber own, account.world.running thread = some (fiber,own) → own.fd = layout.fd fiber
  fdKept : ∀ fiber kept, account.world.suspended fiber = some kept → kept.fd = layout.fd fiber
  once : ∀ one two fiber own own', account.world.running one = some (fiber,own) →
    account.world.running two = some (fiber,own') → one = two
  absent : ∀ thread fiber own, account.world.running thread = some (fiber,own) → account.world.suspended fiber = none

section Frames
variable {Thread Fiber : Type} {layout : Layout Thread Fiber} {memory memory' : Bytes}
  {party caller : Party Thread Fiber} {note : Note} {machine : Machine}

theorem Kept.frame (kept : Kept layout memory party note)
    (same : ∀ address, Within address note.ctx Context.size → memory' address = memory address) :
    Kept layout memory' party note where
  read := (Context.read_congr same).trans kept.read
  stack := kept.stack
  slot := kept.slot

theorem Kept.jump (kept : Kept layout machine.memory party note) (different : party ≠ caller)
    (stack : Inside (Call.ctx machine) Context.size (layout.stack caller) (layout.size caller).toNat)
    (slot : Apart (Call.goal machine).slot 0x18 (layout.stack party) (layout.size party).toNat) :
    Kept layout (Call.resumed machine).memory party note := by
  refine kept.frame fun address within => Call.resumed_outside (fun saved => ?_) fun delivered => ?_
  · have apart := (layout.apart _ _ different).inside kept.stack stack (by decide) (by decide)
    exact apart.disjoint within (Nat.lt_trans saved (by decide))
  · exact slot.disjoint delivered (kept.stack.within within)

theorem Kept.parked (stack : Inside (Call.ctx machine) Context.size (layout.stack caller) (layout.size caller).toNat)
    (slot : ∀ other, other ≠ caller →
      Apart (machine.register .rdi) 0x18 (layout.stack other) (layout.size other).toNat)
    (delivered : Apart (Call.goal machine).slot 0x18 (layout.stack caller) (layout.size caller).toNat) :
    Kept layout (Call.resumed machine).memory caller ⟨Call.ctx machine,Call.context machine⟩ where
  read := by
    rw [← Call.read_parked]
    exact Context.read_congr fun address within => VgcFiber.write_outside fun there =>
      delivered.disjoint there (stack.within within)
  stack := stack
  slot := slot

theorem Kept.made {fiber : Fiber} (place : Label → Address) (base : machine.register .rdi =
      (vgcFiberInit (layout.stack (.fiber fiber)) (layout.size (.fiber fiber))).stackBase) :
    Kept layout (Make.memory place machine) (.fiber fiber) ⟨Make.ctx machine,Make.context place machine⟩ := by
  have inside : Inside (Make.ctx machine) 0x68 (layout.stack (.fiber fiber)) (layout.size (.fiber fiber)).toNat := by
    rw [Make.ctx,base]
    exact stackBase_inside (layout.room (.fiber fiber))
  refine ⟨Make.read_memory ..,?_,fun other different => ?_⟩
  · exact (show Inside (Make.ctx machine) Context.size (Make.ctx machine) 0x68 by simp [Inside,Context.size]).trans inside
  · have slot : Inside (Make.ctx machine + 0x48#64) 0x18 (layout.stack (.fiber fiber))
        (layout.size (.fiber fiber)).toNat := (inside_add _ _ (by decide)).trans inside
    exact (layout.apart _ _ different.symm).narrow slot (by decide) (Nat.lt_of_lt_of_le (by decide) (layout.room other))

end Frames

section Steps
variable {Thread Fiber : Type} [DecidableEq Thread] [DecidableEq Fiber] {layout : Layout Thread Fiber}
  {account after : Account Thread Fiber} {thread : Thread}

def World.jumped (world : World Thread Fiber) (thread : Thread) : World Thread Fiber :=
  { world with
    memory := (Call.resumed (world.machine thread)).memory
    core := Function.update world.core thread
      ⟨(Call.resumed (world.machine thread)).toCpu,(Call.goal (world.machine thread)).rip⟩ }

theorem World.after_jump (world : World Thread Fiber) (place : Label → Address) (thread : Thread) :
    world.after thread (vgcJump.run place (world.machine thread)) = world.jumped thread := by
  rw [vgcJump_run]
  rfl

theorem World.result_jumped (world : World Thread Fiber) (thread : Thread) :
    (world.jumped thread).result thread = Call.given (world.machine thread) := by
  have slot : ((world.jumped thread).core thread).register .rax = (Call.goal (world.machine thread)).slot := by
    simp only [World.jumped,Function.update_self]
    rfl
  rw [World.result,slot]
  exact Call.read_slot

theorem Sound.goal (sound : Sound layout account) {party : Party Thread Fiber} {kept : VgcFiber} {note : Note}
    (calls : Calls layout account.world thread kept) (different : party ≠ account.world.party thread)
    (ctx : account.world.ctx party = some kept.ctx) (noted : account.notes party = some note) :
    note.ctx = kept.ctx ∧ Call.goal (account.world.machine thread) = note.context := by
  have there : note.ctx = kept.ctx := by
    have same := sound.ctx party
    rw [ctx,noted] at same
    exact (Option.some.inj same).symm
  have found := sound.kept party note noted
  refine ⟨there,?_⟩
  rw [Call.goal_apart,calls.ctx,← there]
  · exact found.read
  · rw [calls.ctx,← there]
    exact (layout.apart _ _ different).inside found.stack calls.stack (by decide) (by decide)

/-- One party jumps to another one. The notes of the others stay as they are. -/
theorem Sound.switch (sound : Sound layout account) {party : Party Thread Fiber} {kept : VgcFiber}
    (calls : Calls layout account.world thread kept) (different : party ≠ account.world.party thread)
    (ctx : account.world.ctx party = some kept.ctx) :
    Kept layout (account.world.jumped thread).memory (account.world.party thread)
        ⟨Call.ctx (account.world.machine thread),Call.context (account.world.machine thread)⟩ ∧
      ∀ other note, other ≠ account.world.party thread → other ≠ party → account.notes other = some note →
        Kept layout (account.world.jumped thread).memory other note := by
  obtain ⟨note,noted,_⟩ : ∃ note, account.notes party = some note ∧ note.ctx = kept.ctx :=
    Option.map_eq_some_iff.mp ((sound.ctx party).symm.trans ctx)
  obtain ⟨_,goal⟩ := sound.goal calls different ctx noted
  have slot := (sound.kept party note noted).slot
  rw [← goal] at slot
  exact ⟨.parked calls.stack calls.slot (slot _ (Ne.symm different)),fun other note waits others noted =>
    (sound.kept other note noted).jump waits calls.stack (slot other others)⟩

theorem Account.resume_eq {fiber : Fiber} (stepped : account.step layout (thread,.resume fiber) = some after) :
    ∃ kept, account.world.running thread = none ∧ account.world.suspended fiber = some kept ∧
      after.world = { account.world.jumped thread with
        running := Function.update account.world.running thread
          (some (fiber,Call.given (account.world.machine thread)))
        suspended := Function.update account.world.suspended fiber none } ∧
      after.notes = account.note layout (thread,.resume fiber) := by
  obtain ⟨world,ran,rfl⟩ := Option.map_eq_some_iff.mp stepped
  simp only [World.step] at ran
  split at ran
  next kept free suspended =>
    rw [World.after_jump,World.result_jumped] at ran
    exact ⟨kept,free,suspended,(Option.some.inj ran).symm,rfl⟩
  next => cases ran

theorem Account.leave_eq {waits : Bool} (stepped : account.step layout (thread,.leave waits) = some after) :
    ∃ fiber own, account.world.running thread = some (fiber,own) ∧
      after.world = { account.world.jumped thread with
        running := Function.update account.world.running thread none
        suspended := Function.update account.world.suspended fiber
          (if waits then some (Call.given (account.world.machine thread)) else none) } ∧
      after.notes = account.note layout (thread,.leave waits) := by
  obtain ⟨world,ran,rfl⟩ := Option.map_eq_some_iff.mp stepped
  simp only [World.step] at ran
  split at ran
  next fiber own running =>
    rw [World.after_jump,World.result_jumped] at ran
    exact ⟨fiber,own,running,(Option.some.inj ran).symm,rfl⟩
  next => cases ran

theorem Sound.work (sound : Sound layout account) {core : Core} {memory : Bytes}
    (permitted : permits layout account.world (thread,.work core memory)) :
    Sound layout ⟨{ account.world with core := Function.update account.world.core thread core,memory := memory },
      account.notes⟩ := by
  refine ⟨sound.ctx,fun party note noted => ?_,sound.fd,sound.fdKept,sound.once,sound.absent⟩
  have there : account.world.ctx party = some note.ctx := by
    rw [sound.ctx,noted]
    rfl
  exact (sound.kept party note noted).frame (permitted party note.ctx there)

theorem Sound.resume (sound : Sound layout account) {fiber : Fiber}
    (permitted : permits layout account.world (thread,.resume fiber))
    (stepped : account.step layout (thread,.resume fiber) = some after) : Sound layout after := by
  obtain ⟨kept,free,suspended,world,notes⟩ := Account.resume_eq stepped
  have party : account.world.party thread = .thread thread := by simp only [World.party,free]
  have calls := permitted kept suspended
  obtain ⟨mine,others⟩ := sound.switch calls (by rw [party]; nofun)
    (show account.world.ctx (.fiber fiber) = _ by simp only [World.ctx,suspended,Option.map_some])
  obtain ⟨world',notes'⟩ := after
  subst world notes
  refine ⟨fun other => ?_,fun other note noted => ?_,fun other fiber' own running => ?_,fun other kept' left => ?_,
    fun one two fiber' own own' first second => ?_,fun other fiber' own running => ?_⟩
  · have before := sound.ctx other
    cases other with
    | thread other =>
      simp only [World.ctx] at before ⊢
      by_cases here : other = thread
      · simp [here,Account.note,Call.given]
      · simp [here,Account.note,before]
    | fiber other =>
      simp only [World.ctx] at before ⊢
      by_cases here : other = fiber
      · simp [here,Account.note]
      · simp [here,Account.note,before]
  · rw [party] at mine others
    simp only [Account.note,Function.update_apply] at noted
    split at noted
    next => cases noted
    next away =>
      split at noted
      next here =>
        obtain rfl := Option.some.inj noted
        exact here ▸ mine
      next waits => exact others other note waits away noted
  · simp only [Function.update_apply] at running
    split at running
    next =>
      obtain ⟨rfl,rfl⟩ := Prod.mk.inj (Option.some.inj running)
      exact calls.fd.trans (sound.fdKept _ _ suspended)
    next => exact sound.fd other fiber' own running
  · simp only [Function.update_apply] at left
    split at left
    next => cases left
    next => exact sound.fdKept other kept' left
  · simp only [Function.update_apply] at first second
    split at first <;> split at second
    next here there => exact here.trans there.symm
    next =>
      obtain ⟨rfl,_⟩ := Prod.mk.inj (Option.some.inj first)
      exact absurd (sound.absent _ _ _ second) (by rw [suspended]; exact Option.some_ne_none _)
    next =>
      obtain ⟨rfl,_⟩ := Prod.mk.inj (Option.some.inj second)
      exact absurd (sound.absent _ _ _ first) (by rw [suspended]; exact Option.some_ne_none _)
    next => exact sound.once _ _ _ _ _ first second
  · simp only [Function.update_apply] at running ⊢
    split
    next => rfl
    next away =>
      split at running
      next => exact absurd (Prod.mk.inj (Option.some.inj running)).1.symm away
      next => exact sound.absent _ _ _ running

theorem Sound.leave (sound : Sound layout account) {waits : Bool}
    (permitted : permits layout account.world (thread,.leave waits))
    (stepped : account.step layout (thread,.leave waits) = some after) : Sound layout after := by
  obtain ⟨fiber,own,running,world,notes⟩ := Account.leave_eq stepped
  have party : account.world.party thread = .fiber fiber := by simp only [World.party,running]
  have calls := permitted fiber own running
  obtain ⟨mine,others⟩ := sound.switch calls (by rw [party]; nofun)
    (show account.world.ctx (.thread thread) = _ by simp only [World.ctx,running,Option.map_some])
  obtain ⟨world',notes'⟩ := after
  subst world notes
  refine ⟨fun other => ?_,fun other note noted => ?_,fun other fiber' own' there => ?_,fun other kept' left => ?_,
    fun one two fiber' own own' first second => ?_,fun other fiber' own' there => ?_⟩
  · have before := sound.ctx other
    cases other with
    | thread other =>
      simp only [World.ctx] at before ⊢
      by_cases here : other = thread
      · simp [here,Account.note]
      · simp [here,Account.note,before,party]
    | fiber other =>
      simp only [World.ctx] at before ⊢
      by_cases here : other = fiber
      · cases waits <;> simp [here,Account.note,party,Call.given]
      · simp [here,Account.note,before,party]
  · rw [party] at mine others
    simp only [Account.note,Function.update_apply,party] at noted
    split at noted
    next => cases noted
    next away =>
      split at noted
      next here =>
        split at noted
        next =>
          obtain rfl := Option.some.inj noted
          exact here ▸ mine
        next => cases noted
      next waits => exact others other note waits away noted
  · simp only [Function.update_apply] at there
    split at there
    next => cases there
    next => exact sound.fd other fiber' own' there
  · simp only [Function.update_apply] at left
    split at left
    next here =>
      split at left
      next =>
        obtain rfl := Option.some.inj left
        rw [here]
        exact calls.fd.trans (sound.fd _ _ _ running)
      next => cases left
    next => exact sound.fdKept other kept' left
  · simp only [Function.update_apply] at first second
    split at first
    next => cases first
    next =>
      split at second
      next => cases second
      next => exact sound.once _ _ _ _ _ first second
  · simp only [Function.update_apply] at there ⊢
    split at there
    next => cases there
    next away =>
      split
      next here => exact absurd (sound.once _ _ _ _ _ (here ▸ there) running) away
      next => exact sound.absent _ _ _ there

theorem Account.assign_eq {fiber : Fiber} {data : BitVec 64}
    (stepped : account.step layout (thread,.assign fiber data) = some after) :
    after.world.memory = Make.memory layout.place (account.world.machine thread) ∧
      after.world.running = account.world.running ∧
      after.world.suspended = Function.update account.world.suspended fiber
        (some ⟨data,Make.ctx (account.world.machine thread),layout.fd fiber⟩) ∧
      after.notes = account.note layout (thread,.assign fiber data) := by
  obtain ⟨world,ran,rfl⟩ := Option.map_eq_some_iff.mp stepped
  simp only [World.step,vgcMake_run,World.after,Function.update_self,Make.returned] at ran
  obtain rfl := Option.some.inj ran
  exact ⟨rfl,rfl,rfl,rfl⟩

theorem Sound.assign (sound : Sound layout account) {fiber : Fiber} {data : BitVec 64}
    (permitted : permits layout account.world (thread,.assign fiber data))
    (stepped : account.step layout (thread,.assign fiber data) = some after) : Sound layout after := by
  obtain ⟨memory,running,suspended,notes⟩ := Account.assign_eq stepped
  obtain ⟨base,free⟩ := permitted
  have made : Kept layout (Make.memory layout.place (account.world.machine thread)) (.fiber fiber)
      ⟨Make.ctx (account.world.machine thread),Make.context layout.place (account.world.machine thread)⟩ :=
    .made layout.place base
  refine ⟨fun other => ?_,fun other note noted => ?_,fun other fiber' own there => ?_,fun other kept' left => ?_,
    fun one two fiber' own own' first second => ?_,fun other fiber' own there => ?_⟩
  · have before := sound.ctx other
    cases other with
    | thread other =>
      simp only [World.ctx] at before ⊢
      simp [running,notes,Account.note,before]
    | fiber other =>
      simp only [World.ctx] at before ⊢
      by_cases here : other = fiber
      · simp [suspended,notes,here,Account.note]
      · simp [suspended,notes,here,Account.note,before]
  · rw [notes] at noted
    simp only [Account.note,Function.update_apply] at noted
    rw [memory]
    split at noted
    next here =>
      obtain rfl := Option.some.inj noted
      exact here ▸ made
    next away =>
      have kept := sound.kept other note noted
      refine kept.frame fun address within => Make.memory_outside _ _ fun there => ?_
      exact ((layout.apart _ _ away).inside kept.stack made.stack (by decide) (by decide)).disjoint within there
  · exact sound.fd other fiber' own (running ▸ there)
  · rw [suspended] at left
    simp only [Function.update_apply] at left
    split at left
    next here =>
      obtain rfl := Option.some.inj left
      rw [here]
    next => exact sound.fdKept other kept' left
  · exact sound.once _ _ _ _ _ (running ▸ first) (running ▸ second)
  · rw [running] at there
    rw [suspended]
    simp only [Function.update_apply]
    split
    next here => exact absurd (here ▸ there) (free other own)
    next => exact sound.absent _ _ _ there

theorem Sound.step (sound : Sound layout account) {label : Thread × Act Fiber}
    (permitted : permits layout account.world label) (stepped : account.step layout label = some after) :
    Sound layout after := by
  obtain ⟨thread,act⟩ := label
  cases act with
  | work core memory =>
    obtain rfl := Option.some.inj stepped
    exact sound.work permitted
  | assign fiber data => exact sound.assign permitted stepped
  | resume fiber => exact sound.resume permitted stepped
  | leave waits => exact sound.leave permitted stepped

/-- Nobody waits: no fiber has a procedure. -/
def Account.ofMachine (core : Thread → Core) (memory : Bytes) : Account Thread Fiber :=
  ⟨⟨memory,core,fun _ => none,fun _ => none⟩,fun _ => none⟩

theorem Sound.ofMachine (core : Thread → Core) (memory : Bytes) :
    Sound layout (Account.ofMachine core memory : Account Thread Fiber) :=
  ⟨fun party => by cases party <;> rfl,nofun,nofun,nofun,nofun,nofun⟩

abbrev Reached (layout : Layout Thread Fiber) (core : Thread → Core) (memory : Bytes) : Account Thread Fiber → Prop :=
  Run (Account.step layout) (fun account => permits layout account.world) (.ofMachine core memory)

theorem Reached.sound {core : Thread → Core} {memory : Bytes} (reached : Reached layout core memory account) :
    Sound layout account :=
  reached.invariant (.ofMachine core memory) fun _ _ _ sound permitted stepped => sound.step permitted stepped

end Steps

def Act.continues {Thread Fiber : Type} (thread : Thread) : Act Fiber → Option (Party Thread Fiber)
  | .resume fiber => some (.fiber fiber)
  | .leave _ => some (.thread thread)
  | _ => none

section Switching
variable {Thread Fiber : Type} [DecidableEq Thread] [DecidableEq Fiber] {layout : Layout Thread Fiber}
  {core : Thread → Core} {memory : Bytes} {account after : Account Thread Fiber} {thread : Thread} {act : Act Fiber}

/-- What a jump goes on with is what was noted of the other party. -/
theorem Sound.resumes (sound : Sound layout account) {party : Party Thread Fiber} {kept : VgcFiber}
    (calls : Calls layout account.world thread kept) (different : party ≠ account.world.party thread)
    (ctx : account.world.ctx party = some kept.ctx) :
    ∃ note, account.notes party = some note ∧
      (account.world.jumped thread).core thread = ⟨note.context.resume note.ctx
        (Call.given (account.world.machine thread)) (account.world.core thread).toCpu,note.context.rip⟩ ∧
      VgcFiber.read (account.world.jumped thread).memory note.context.slot = Call.given (account.world.machine thread) := by
  obtain ⟨note,noted,_⟩ : ∃ note, account.notes party = some note ∧ note.ctx = kept.ctx :=
    Option.map_eq_some_iff.mp ((sound.ctx party).symm.trans ctx)
  obtain ⟨there,goal⟩ := sound.goal calls different ctx noted
  refine ⟨note,noted,?_,?_⟩
  · simp only [World.jumped,Function.update_self]
    rw [there,← calls.ctx,← goal]
    rfl
  · rw [← goal]
    exact Call.read_slot

theorem switch_resumes (reached : Reached layout core memory account) (permitted : permits layout account.world (thread,act))
    (stepped : account.step layout (thread,act) = some after) {party : Party Thread Fiber}
    (continues : act.continues thread = some party) :
    ∃ note, account.notes party = some note ∧
      after.world.core thread = ⟨note.context.resume note.ctx (Call.given (account.world.machine thread))
        (account.world.core thread).toCpu,note.context.rip⟩ ∧
      VgcFiber.read after.world.memory note.context.slot = Call.given (account.world.machine thread) := by
  have sound := reached.sound
  cases act with
  | work => cases continues
  | assign => cases continues
  | resume fiber =>
    obtain rfl := Option.some.inj continues
    obtain ⟨kept,free,suspended,world,_⟩ := Account.resume_eq stepped
    rw [world]
    have other : account.world.party thread = .thread thread := by simp only [World.party,free]
    have ctx : account.world.ctx (.fiber fiber) = some kept.ctx := by simp only [World.ctx,suspended,Option.map_some]
    exact sound.resumes (permitted kept suspended) (by rw [other]; nofun) ctx
  | leave waits =>
    obtain rfl := Option.some.inj continues
    obtain ⟨fiber,own,running,world,_⟩ := Account.leave_eq stepped
    rw [world]
    have other : account.world.party thread = .fiber fiber := by simp only [World.party,running]
    have ctx : account.world.ctx (.thread thread) = some own.ctx := by simp only [World.ctx,running,Option.map_some]
    exact sound.resumes (permitted fiber own running) (by rw [other]; nofun) ctx

def World.Holds (world : World Thread Fiber) (party : Party Thread Fiber) (fiber : Fiber) (held : VgcFiber) : Prop :=
  match party with
  | .thread thread => world.running thread = some (fiber,held)
  | .fiber other => other = fiber ∧ world.suspended fiber = some held

theorem held_current (reached : Reached layout core memory account) {party : Party Thread Fiber} {fiber : Fiber}
    {held : VgcFiber} (holds : account.world.Holds party fiber held) :
    held.fd = layout.fd fiber ∧ ∃ note, account.notes party = some note ∧ held.ctx = note.ctx ∧
      Context.read account.world.memory held.ctx = note.context := by
  have sound := reached.sound
  have found : held.fd = layout.fd fiber ∧ account.world.ctx party = some held.ctx := by
    cases party with
    | thread thread =>
      have running : account.world.running thread = some (fiber,held) := holds
      exact ⟨sound.fd _ _ _ running,by simp only [World.ctx,running,Option.map_some]⟩
    | fiber other =>
      obtain ⟨rfl,suspended⟩ := holds
      exact ⟨sound.fdKept _ _ suspended,by simp only [World.ctx,suspended,Option.map_some]⟩
  obtain ⟨note,noted,there⟩ := Option.map_eq_some_iff.mp ((sound.ctx party).symm.trans found.2)
  exact ⟨found.1,note,noted,there.symm,there ▸ (sound.kept party note noted).read⟩

end Switching

/-! One thread and one fiber. -/
section Sample

def sampleStack : Party Unit Unit → Address
  | .thread _ => 0x100000#64
  | .fiber _ => 0x200000#64

theorem sampleStack_apart (one two : Party Unit Unit) (different : one ≠ two) :
    Apart (sampleStack one) (0x1000#64).toNat (sampleStack two) (0x1000#64).toNat := by
  have apart : Apart 0x100000#64 (0x1000#64).toNat 0x200000#64 (0x1000#64).toNat := by decide
  rcases one with _ | _ <;> rcases two with _ | _
  · exact absurd rfl different
  · exact apart
  · exact apart.symm
  · exact absurd rfl different

theorem sampleStack_room (_ : Party Unit Unit) : 0x78 ≤ (0x1000#64).toNat := by decide

def sampleLayout : Layout Unit Unit where
  place := samplePlace
  stack := sampleStack
  size _ := 0x1000#64
  fd _ := 0x300000#64
  apart := sampleStack_apart
  room := sampleStack_room

def sampleCore (rdi : Address) : Core := ⟨sampleCpu rdi,0x400200#64⟩

def sampleStart : Account Unit Unit := .ofMachine (fun _ => sampleCore 0x200ff0#64) fun _ => 0#8

def sampleAssigned : Account Unit Unit := (sampleStart.step sampleLayout ((),.assign () 7#64)).getD sampleStart

/-- The argument of the call that comes next has been pushed. -/
def sampleMemory : Bytes :=
  VgcFiber.write sampleAssigned.world.memory 0x100808#64 ⟨7#64,0x200f88#64,0x300000#64⟩

def sampleReady : Account Unit Unit :=
  (sampleAssigned.step sampleLayout ((),.work (sampleCore 0x100900#64) sampleMemory)).getD sampleStart

theorem sampleReady_reached : Reached sampleLayout (fun _ => sampleCore 0x200ff0#64) (fun _ => 0#8) sampleReady := by
  have assign : sampleStart.step sampleLayout ((),.assign () 7#64) = some sampleAssigned := rfl
  have work : sampleAssigned.step sampleLayout ((),.work (sampleCore 0x100900#64) sampleMemory) = some sampleReady := rfl
  have permitted : permits sampleLayout sampleStart.world ((),.assign () 7#64) := ⟨by decide,nofun⟩
  refine .next (.next .start permitted assign) ?_ work
  intro party ctx there address within
  rcases party with _ | _
  · cases there
  · have here : (0x200f88#64 : Address) = ctx := Option.some.inj there
    rw [← here] at within
    have apart : Apart 0x200f88#64 Context.size 0x100808#64 0x18 := by decide
    exact VgcFiber.write_outside (apart.disjoint within)

theorem sampleReady_calls : permits sampleLayout sampleReady.world ((),.resume ()) := by
  intro kept suspended
  obtain rfl := Option.some.inj suspended
  have read : Call.fiber (sampleReady.world.machine ()) = ⟨7#64,0x200f88#64,0x300000#64⟩ := VgcFiber.read_write ..
  refine ⟨by rw [read]; rfl,by rw [read]; rfl,by decide,fun other away => ?_⟩
  rcases other with _ | _
  · exact absurd rfl away
  · exact (by decide : Apart 0x100900#64 0x18 0x200000#64 (0x1000#64).toNat)

/-- The first call of the scheduler gets to the trampoline, on the stack of the fiber. -/
theorem sampleReady_resumes : ∃ note, sampleReady.notes (.fiber ()) = some note ∧
    (((sampleReady.step sampleLayout ((),.resume ())).getD sampleReady).world.core ()) =
      ⟨note.context.resume note.ctx (Call.given (sampleReady.world.machine ())) (sampleReady.world.core ()).toCpu,
        note.context.rip⟩ ∧
    VgcFiber.read ((sampleReady.step sampleLayout ((),.resume ())).getD sampleReady).world.memory note.context.slot =
      Call.given (sampleReady.world.machine ()) := by
  have stepped : sampleReady.step sampleLayout ((),.resume ()) =
      some ((sampleReady.step sampleLayout ((),.resume ())).getD sampleReady) := rfl
  exact switch_resumes sampleReady_reached sampleReady_calls stepped rfl

theorem sampleReady_current : (0x300000#64 : Address) = sampleLayout.fd () ∧
    ∃ note, sampleReady.notes (.fiber ()) = some note ∧ 0x200f88#64 = note.ctx ∧
      Context.read sampleReady.world.memory 0x200f88#64 = note.context := by
  have holds : sampleReady.world.Holds (.fiber ()) () ⟨7#64,0x200f88#64,0x300000#64⟩ := ⟨rfl,rfl⟩
  exact held_current sampleReady_reached holds

end Sample

end CSpock.Fibers.Asm
