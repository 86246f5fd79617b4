import CSpock.Fibers.Preservation

/-! The steps one by one. -/
set_option linter.unusedSectionVars false
namespace CSpock.Fibers
open CSpock.Library.Transition

variable {size : Nat} {Thread Counter Work : Type} [DecidableEq Thread] [DecidableEq Counter]

theorem Caller.point_cases {result : Int} {caller : Caller size} {point : Point size Counter Work}
    (back : caller.point result = some point) : (caller.own = none ∧ point = .outside) ∨
      ∃ fiber, caller.own = some fiber ∧ point = .running fiber := by
  cases caller with
  | thread => exact .inl ⟨rfl,(Option.some.inj back).symm⟩
  | fiber own fatal =>
    simp only [Caller.point] at back
    split at back
    next => cases back
    next => exact .inr ⟨own,rfl,(Option.some.inj back).symm⟩

namespace Sys

variable {sys : Sys size Thread Counter Work} {thread : Thread} {act : Act Counter Work}

@[simp] theorem setPoint_same (point : Point size Counter Work) : (sys.setPoint thread point).threads thread = point :=
  Function.update_self ..

theorem setPoint_other (point : Point size Counter Work) {other : Thread} (different : other ≠ thread) :
    (sys.setPoint thread point).threads other = sys.threads other := Function.update_of_ne different ..

theorem setLock_data (count : Counter) (lock : Bool) (other : Counter) :
    ((sys.setLock count lock).counters other).counter = (sys.counters other).counter ∧
      ((sys.setLock count lock).counters other).waiters = (sys.counters other).waiters := by
  by_cases same : other = count
  · subst same
    simp [setLock,setCounter]
  · simp [setLock,setCounter,same]

theorem setLock_other (count : Counter) (lock : Bool) {other : Counter} (different : other ≠ count) :
    (sys.setLock count lock).counters other = sys.counters other := by
  simp [setLock,setCounter,different]

theorem contents_eq {next : Sys size Thread Counter Work}
    (pool : next.freeQPool.filterMap Pooled.held = sys.freeQPool.filterMap Pooled.held)
    (queues : next.queues = sys.queues) (others : ∀ other, other ≠ thread → next.threads other = sys.threads other)
    (host : (next.threads thread).host = (sys.threads thread).host)
    (hand : (next.threads thread).hand = (sys.threads thread).hand)
    (pending : next.pending = sys.pending) : next.contents = sys.contents := by
  funext place
  cases place with
  | pool => exact pool
  | queue queue => exact congrFun queues queue
  | host other =>
    by_cases here : other = thread
    · subst here
      exact congrArg Option.toList host
    · simp only [contents,others other here]
  | hand other =>
    by_cases here : other = thread
    · subst here
      exact congrArg Option.toList hand
    · simp only [contents,others other here]
  | waiting count => exact congrFun pending count

theorem pending_eq {next : Sys size Thread Counter Work}
    (woken : ∀ count, (next.batches count).map Batch.woken = (sys.batches count).map Batch.woken)
    (waiters : ∀ count, (next.counters count).waiters = (sys.counters count).waiters) :
    next.pending = sys.pending := by
  funext count
  have same := woken count
  simp only [pending,waiters]
  cases set : sys.batches count with
  | none =>
    rw [set] at same
    rw [Option.map_eq_none_iff.mp same]
  | some batch =>
    rw [set] at same
    obtain ⟨after,set',woken⟩ := Option.map_eq_some_iff.mp same
    rw [set']
    exact congrArg (fun list => (sys.counters count).waiters.drop (List.length list)) woken

/-- The fiber that the thread has in its hand, or whose turn it is to be woken, is about to be lost: it goes nowhere. -/
def Loses (sys : Sys size Thread Counter Work) (thread : Thread) (act : Act Counter Work) : Prop :=
  match sys.threads thread with
  | .assigning _ _ _ job _ _ => act.fails = true ∨
      ∀ queue, job.priority.queue = some queue → size ≤ (sys.queues queue).length
  | .switched fiber => (sys.fibers fiber).state ≠ .wait ∧
      ((sys.fibers fiber).state = .done → (sys.fibers fiber).parentCount = none)
  | .adding _ count => (sys.counters count).waiters.length = waitFiberLen
  | .waking _ _ _ => act.fails = true
  | _ => False

/-- What a step comes to: the invariant is kept, and at most one fiber goes somewhere else. -/
structure Outcome (sys next : Sys size Thread Counter Work) (thread : Thread) (act : Act Counter Work) : Prop where
  sound : next.Sound
  placed : next.contents = sys.contents ∨ ∃ fiber source target,
    Transfer sys.contents next.contents fiber source target ∧ (target = none → sys.Loses thread act)

structure Moves (sys : Sys size Thread Counter Work) (thread : Thread) (point : Point size Counter Work) : Prop where
  host : point.host = (sys.threads thread).host
  hand : point.hand = (sys.threads thread).hand
  schedules : ∀ count, point.schedules = some count → (sys.threads thread).schedules = some count
  known : ∀ count, point.counter = some count → (sys.batches count).isSome
  wakes : ∀ count, (sys.threads thread).wakes = some count → point.wakes = some count ∨
    ∀ batch, sys.batches count = some batch → (sys.counters count).counter = 0 →
      batch.woken = (sys.counters count).waiters

theorem Sound.point (sound : sys.Sound) {point : Point size Counter Work} (moves : Moves sys thread point)
    (holds : ∀ count, (sys.setPoint thread point).holds thread = some count → sys.holds thread = some count)
    (knows : (sys.setPoint thread point).Knows thread) : Outcome sys (sys.setPoint thread point) thread act := by
  have quiet : Quiet sys (sys.setPoint thread point) thread := by
    refine ⟨fun other => setPoint_other point,fun _ => ⟨rfl,rfl⟩,fun _ _ _ _ => rfl,rfl,rfl,?_⟩
    simpa using moves.wakes
  have mine : Mine sys (sys.setPoint thread point) thread := by
    refine ⟨fun count held => ⟨sound.locked thread count (holds count held),fun other different held' => ?_⟩,
      fun count scheduling other different scheduling' => ?_,by rw [setPoint_same]; exact moves.known,knows⟩
    · exact different (sound.mutex other thread count held' (holds count held))
    · rw [setPoint_same] at scheduling
      exact different (sound.sole other thread count scheduling' (moves.schedules count scheduling))
  have same : (sys.setPoint thread point).contents = sys.contents := by
    refine contents_eq rfl rfl quiet.others ?_ ?_ rfl
    · simpa using moves.host
    · simpa using moves.hand
  exact ⟨quiet.sound mine sound rfl same,.inl same⟩

theorem Sound.lock (sound : sys.Sound) {count : Counter} {lock : Bool} {point : Point size Counter Work}
    (moves : Moves sys thread point)
    (free : ∀ other, other ≠ thread → sys.holds other ≠ some count)
    (holds : ∀ own, ((sys.setLock count lock).setPoint thread point).holds thread = some own →
      own = count ∧ lock = true)
    (knows : ((sys.setLock count lock).setPoint thread point).Knows thread) :
    Outcome sys ((sys.setLock count lock).setPoint thread point) thread act := by
  have quiet : Quiet sys ((sys.setLock count lock).setPoint thread point) thread := by
    refine ⟨fun other => setPoint_other point,setLock_data count lock,fun other different own held => ?_,rfl,rfl,?_⟩
    · have apart : own ≠ count := by
        rintro rfl
        exact free other different held
      exact congrArg VgcCounter.lock (setLock_other count lock apart)
    · simpa using moves.wakes
  have mine : Mine sys ((sys.setLock count lock).setPoint thread point) thread := by
    refine ⟨fun own held => ?_,fun own scheduling other different scheduling' => ?_,by rw [setPoint_same]; exact moves.known,knows⟩
    · obtain ⟨rfl,rfl⟩ := holds own held
      exact ⟨by simp [setLock,setCounter,setPoint],fun other different => free other different⟩
    · rw [setPoint_same] at scheduling
      exact different (sound.sole other thread own scheduling' (moves.schedules own scheduling))
  have same : ((sys.setLock count lock).setPoint thread point).contents = sys.contents := by
    refine contents_eq rfl rfl quiet.others ?_ ?_ (pending_eq (fun _ => rfl) fun own => (setLock_data count lock own).2)
    · simpa using moves.host
    · simpa using moves.hand
  exact ⟨quiet.sound mine sound rfl same,.inl same⟩

theorem Sound.unheld (sound : sys.Sound) {count : Counter} (free : (sys.counters count).lock = false) (other : Thread) :
    sys.holds other ≠ some count := by
  intro held
  have := sound.locked other count held
  rw [free] at this
  cases this

theorem Sound.apart (sound : sys.Sound) {count : Counter} (held : sys.holds thread = some count) (other : Thread)
    (different : other ≠ thread) : sys.holds other ≠ some count :=
  fun held' => different (sound.mutex other thread count held' held)

theorem Sound.back (sound : sys.Sound) {caller : Caller size} {result : Int} {point : Point size Counter Work}
    (back : caller.point result = some point) (host : (sys.threads thread).host = caller.own)
    (hand : (sys.threads thread).hand = none) (wakes : (sys.threads thread).wakes = none) :
    Outcome sys (sys.setPoint thread point) thread act := by
  rcases Caller.point_cases back with ⟨own,rfl⟩ | ⟨fiber,own,rfl⟩
  all_goals
    rw [own] at host
    refine sound.point ⟨host.symm ▸ rfl,hand.symm ▸ rfl,by simp,by simp,fun count waking => ?_⟩ (by simp [holds]) ?_
    · rw [wakes] at waking
      cases waking
    simp [Knows]

theorem Sound.mine (sound : sys.Sound) {next : Sys size Thread Counter Work} (counters : next.counters = sys.counters)
    (holds : ∀ count, next.holds thread = some count → sys.holds thread = some count)
    (schedules : ∀ count, (next.threads thread).schedules = some count → (sys.threads thread).schedules = some count)
    (known : ∀ count, (next.threads thread).counter = some count → (next.batches count).isSome)
    (knows : next.Knows thread) : Mine sys next thread where
  holding count held := by
    refine ⟨?_,sound.apart (holds count held)⟩
    rw [counters]
    exact sound.locked thread count (holds count held)
  scheduling count scheduling other different scheduling' :=
    different (sound.sole other thread count scheduling' (schedules count scheduling))
  known := known
  knows := knows

theorem quiet_of {next : Sys size Thread Counter Work}
    (others : ∀ other, other ≠ thread → next.threads other = sys.threads other)
    (counters : next.counters = sys.counters) (batches : next.batches = sys.batches)
    (carries : next.carries = sys.carries) (wakes : (sys.threads thread).wakes = none) : Quiet sys next thread where
  others := others
  counters count := by rw [counters]; exact ⟨rfl,rfl⟩
  locks other different count held := by rw [counters]
  batches := batches
  carries := carries
  wakes count waking := by
    rw [wakes] at waking
    cases waking

theorem transfer_of {next : Sys size Thread Counter Work} {fiber : Fin size} {source : Place Thread Counter}
    {target : Option (Place Thread Counter)}
    (others : ∀ other, other ≠ thread → next.threads other = sys.threads other) (apart : target ≠ some source)
    (taken : (sys.contents source).Perm (fiber::next.contents source))
    (put : ∀ place, target = some place → (next.contents place).Perm (fiber::sys.contents place))
    (pool : source ≠ .pool → target ≠ some .pool →
      (next.contents .pool : List (Fin size)) = sys.contents .pool)
    (queues : ∀ queue, source ≠ .queue queue → target ≠ some (.queue queue) → next.queues queue = sys.queues queue)
    (host : source ≠ .host thread → target ≠ some (.host thread) → (next.threads thread).host = (sys.threads thread).host)
    (hand : source ≠ .hand thread → target ≠ some (.hand thread) → (next.threads thread).hand = (sys.threads thread).hand)
    (pending : ∀ count, source ≠ .waiting count → target ≠ some (.waiting count) →
      next.pending count = sys.pending count) :
    Transfer sys.contents next.contents fiber source target where
  apart := apart
  taken := taken
  put := put
  others place notSource notTarget := by
    cases place with
    | pool => exact pool notSource.symm notTarget
    | queue queue => exact queues queue notSource.symm notTarget
    | host other =>
      by_cases here : other = thread
      · subst here
        exact congrArg Option.toList (host notSource.symm notTarget)
      · simp only [contents,others other here]
    | hand other =>
      by_cases here : other = thread
      · subst here
        exact congrArg Option.toList (hand notSource.symm notTarget)
      · simp only [contents,others other here]
    | waiting count => exact pending count notSource.symm notTarget

/-- The code of a fiber is left; the fiber is in the hand of the thread. -/
theorem Sound.jump (sound : sys.Sound) {fiber : Fin size} {fd : FiberData Counter Work}
    (host : (sys.threads thread).host = some fiber) (hand : (sys.threads thread).hand = none)
    (wakes : (sys.threads thread).wakes = none) (priority : fd.priority = (sys.fibers fiber).priority)
    (parent : fd.parentCount = (sys.fibers fiber).parentCount)
    (waits : fd.state = .wait → ∃ count, fd.dependencyCount = some count ∧ sys.holds thread = some count ∧
      (sys.batches count).isSome ∧ (sys.counters count).counter ≠ 0) :
    Outcome sys ((sys.setFiber fiber fd).setPoint thread (.switched fiber)) thread act := by
  let next := (sys.setFiber fiber fd).setPoint thread (.switched fiber)
  have others : ∀ other, other ≠ thread → next.threads other = sys.threads other := fun other => setPoint_other _
  have point : next.threads thread = .switched fiber := setPoint_same _
  have own : next.fibers fiber = fd := Function.update_self ..
  have running : sys.contents (.host thread) = [fiber] := congrArg Option.toList host
  have empty : sys.contents (.hand thread) = [] := congrArg Option.toList hand
  have bears : sys.Bears fiber := sound.fits fiber (.host thread) (running ▸ List.mem_singleton_self fiber)
  have transfer : Transfer sys.contents next.contents fiber (.host thread) (some (.hand thread)) :=
    transfer_of others (by simp) (by rw [running]; simp [contents,point])
      (by rintro place ⟨⟩; rw [empty]; simp [contents,point]) (fun _ _ => rfl) (fun _ _ _ => rfl) (by simp) (by simp)
      fun _ _ _ => rfl
  have mine : Mine sys next thread := by
    refine sound.mine rfl ?_ (by simp [point]) (by simp [point]) ?_
    · intro count held
      simp only [holds,point,own] at held
      split at held
      next state =>
        obtain ⟨named,dependency,holds,_,_⟩ := waits state
        cases dependency.symm.trans held
        exact holds
      next => cases held
    · simp only [Knows,point]
      refine ⟨⟨?_,?_⟩,?_⟩
      · rw [own,parent]
        exact bears.carries
      · rw [own,priority]
        exact bears.queue
      · rw [own]
        intro state
        obtain ⟨count,dependency,_,set,live⟩ := waits state
        exact ⟨count,dependency,set,live⟩
  refine ⟨(quiet_of others rfl rfl rfl wakes).moved mine sound transfer (by simp) ?_ ?_,.inr ⟨_,_,_,transfer,by rintro ⟨⟩⟩⟩
  · exact fun other different => Function.update_of_ne different ..
  · rintro place ⟨⟩
    trivial

theorem setFiber_self (fiber : Fin size) : sys.setFiber fiber (sys.fibers fiber) = sys := by
  simp [setFiber]

theorem Sound.lose (sound : sys.Sound) {fiber : Fin size} (fd : FiberData Counter Work)
    {point : Point size Counter Work} (hand : (sys.threads thread).hand = some fiber)
    (wakes : (sys.threads thread).wakes = none) (host : point.host = (sys.threads thread).host)
    (empty : point.hand = none)
    (schedules : ∀ count, point.schedules = some count → (sys.threads thread).schedules = some count)
    (known : ∀ count, point.counter = some count → (sys.batches count).isSome)
    (holds : ∀ count, ((sys.setFiber fiber fd).setPoint thread point).holds thread = some count →
      sys.holds thread = some count)
    (knows : ((sys.setFiber fiber fd).setPoint thread point).Knows thread) (loses : sys.Loses thread act) :
    Outcome sys ((sys.setFiber fiber fd).setPoint thread point) thread act := by
  let next := (sys.setFiber fiber fd).setPoint thread point
  have others : ∀ other, other ≠ thread → next.threads other = sys.threads other := fun other => setPoint_other _
  have at_ : next.threads thread = point := setPoint_same _
  have held : sys.contents (.hand thread) = [fiber] := congrArg Option.toList hand
  have left : next.contents (.hand thread) = [] := by
    change ((next.threads thread).hand).toList = []
    rw [at_,empty]
    rfl
  have transfer : Transfer sys.contents next.contents fiber (.hand thread) none :=
    transfer_of others nofun (by rw [held,left]) nofun (fun _ _ => rfl) (fun _ _ _ => rfl)
      (fun _ _ => by rw [at_,host]) (fun stays => absurd rfl stays) fun _ _ _ => rfl
  refine ⟨(quiet_of others rfl rfl rfl wakes).moved
    (sound.mine rfl holds (at_.symm ▸ schedules) (at_.symm ▸ known) knows) sound transfer
    (fun _ different same => different (Place.hand.inj same).symm) ?_ nofun,.inr ⟨_,_,_,transfer,fun _ => loses⟩⟩
  exact fun other different => Function.update_of_ne different ..

theorem Sound.resume (sound : sys.Sound) {queue : RunQueue} {fiber : Fin size} {rest : List (Fin size)}
    (polling : sys.threads thread = .polling queue) (head : sys.queues queue = fiber::rest) :
    Outcome sys ((sys.resume queue rest fiber).setPoint thread (.running fiber)) thread act := by
  let next := (sys.resume queue rest fiber).setPoint thread (.running fiber)
  have others : ∀ other, other ≠ thread → next.threads other = sys.threads other := fun other => setPoint_other _
  have point : next.threads thread = .running fiber := setPoint_same _
  have queued : sys.contents (.queue queue : Place Thread Counter) = fiber::rest := head
  have taken : next.contents (.queue queue : Place Thread Counter) = rest := Function.update_self ..
  have bears : sys.Bears fiber := sound.fits fiber (.queue queue) (queued ▸ List.mem_cons_self ..)
  have transfer : Transfer sys.contents next.contents fiber (.queue queue) (some (.host thread)) := by
    refine transfer_of others (by simp) (by rw [queued,taken]) ?_ (fun _ _ => rfl) ?_ (by simp) ?_ fun _ _ _ => rfl
    · rintro place ⟨⟩
      simp [contents,point,polling]
    · intro other different _
      exact Function.update_of_ne (fun same => different (congrArg Place.queue same.symm)) ..
    · simp [point,polling]
  have mine : Mine sys next thread :=
    sound.mine rfl (by simp [holds,point]) (by simp [point]) (by simp [point]) (by simp [Knows,point])
  refine ⟨(quiet_of others rfl rfl rfl (by rw [polling]; rfl)).moved mine sound transfer (by simp) ?_ ?_,
    .inr ⟨_,_,_,transfer,by rintro ⟨⟩⟩⟩
  · exact fun other different => Function.update_of_ne different ..
  · rintro place ⟨⟩
    have own : next.fibers fiber = { sys.fibers fiber with state := .run } := Function.update_self ..
    refine ⟨?_,?_⟩ <;> rw [own]
    · exact bears.carries
    · exact bears.queue

theorem Sound.pop (sound : sys.Sound) {caller : Caller size} {index : Nat} {job : VgcJob Work}
    {jobs : List (VgcJob Work)} {count : Option Counter} {fiber : Fin size} {pool : List (Pooled size)}
    (scheduling : sys.threads thread = .scheduling caller index (job::jobs) count)
    (head : sys.freeQPool = .fiber fiber::pool) :
    Outcome sys ({ sys with freeQPool := pool }.setPoint thread (.assigning caller index fiber job jobs count))
      thread act := by
  let next := { sys with freeQPool := pool }.setPoint thread (.assigning caller index fiber job jobs count)
  have others : ∀ other, other ≠ thread → next.threads other = sys.threads other := fun other => setPoint_other _
  have point : next.threads thread = .assigning caller index fiber job jobs count := setPoint_same _
  have pooled : sys.contents (.pool : Place Thread Counter) = fiber::next.contents (.pool : Place Thread Counter) := by
    simp [contents,head,Pooled.held,next,setPoint]
  have free : sys.carries fiber = none := sound.fits fiber .pool (pooled ▸ List.mem_cons_self ..)
  have transfer : Transfer sys.contents next.contents fiber .pool (some (.hand thread)) := by
    refine transfer_of others (by simp) (by rw [pooled]) ?_ (by simp) (fun _ _ _ => rfl) ?_ (by simp) fun _ _ _ => rfl
    · rintro place ⟨⟩
      simp [contents,point,scheduling]
    · simp [point,scheduling]
  have mine : Mine sys next thread := by
    refine sound.mine rfl (by simp [holds,point]) (by simp [point,scheduling]) (by simp [point]) ?_
    have knows := sound.knows thread
    simp only [Knows,point,scheduling] at knows ⊢
    refine ⟨free,fun own same => ?_⟩
    subst same
    exact knows
  refine ⟨(quiet_of others rfl rfl rfl (by rw [scheduling]; rfl)).moved mine sound transfer (by simp)
    (fun _ _ => rfl) ?_,.inr ⟨_,_,_,transfer,by rintro ⟨⟩⟩⟩
  rintro place ⟨⟩
  trivial

theorem Sound.retire (sound : sys.Sound) {fiber : Fin size} (retiring : sys.threads thread = .retiring fiber) :
    Outcome sys ({ sys with freeQPool := sys.freeQPool ++ [Pooled.fiber fiber] }.setPoint thread (.polling .hiQ))
      thread act := by
  let next := { sys with freeQPool := sys.freeQPool ++ [Pooled.fiber fiber] }.setPoint thread (.polling .hiQ)
  have others : ∀ other, other ≠ thread → next.threads other = sys.threads other := fun other => setPoint_other _
  have point : next.threads thread = .polling .hiQ := setPoint_same _
  have pooled : next.contents (.pool : Place Thread Counter) = sys.contents (.pool : Place Thread Counter) ++ [fiber] := by
    simp [contents,Pooled.held,next,setPoint]
  have knows := sound.knows thread
  simp only [Knows,retiring] at knows
  have transfer : Transfer sys.contents next.contents fiber (.hand thread) (some .pool) := by
    refine transfer_of others (by simp) ?_ ?_ (by simp) (fun _ _ _ => rfl) ?_ (by simp) fun _ _ _ => rfl
    · simp [contents,point,retiring]
    · rintro place ⟨⟩
      rw [pooled]
      exact List.perm_append_singleton ..
    · simp [point,retiring]
  have mine : Mine sys next thread :=
    sound.mine rfl (by simp [holds,point]) (by simp [point]) (by simp [point]) (by simp [Knows,point])
  refine ⟨(quiet_of others rfl rfl rfl (by rw [retiring]; rfl)).moved mine sound transfer
    (fun _ different same => different (Place.hand.inj same).symm) (fun _ _ => rfl) ?_,.inr ⟨_,_,_,transfer,by rintro ⟨⟩⟩⟩
  rintro place ⟨⟩
  exact knows

/-- The address that is pushed in place of a fiber is none of the fibers. -/
theorem Sound.undo (sound : sys.Sound) {caller : Caller size} {index : Nat} {count : Option Counter}
    {point : Point size Counter Work} (undoing : sys.threads thread = .undoing caller index count) (back : caller.point index = some point) :
    Outcome sys ({ sys with freeQPool := sys.freeQPool ++ [Pooled.stray] }.setPoint thread point) thread act := by
  let next : Sys size Thread Counter Work := { sys with freeQPool := sys.freeQPool ++ [Pooled.stray] }
  have same : next.contents = sys.contents :=
    contents_eq (by simp [next,Pooled.held]) rfl (fun _ (_ : _ ≠ thread) => rfl) rfl rfl rfl
  have pushed : next.Sound := by
    have mine : Mine sys next thread := by
      refine sound.mine rfl (fun _ => id) (fun _ => id) (fun count => sound.known thread count) ?_
      have knows := sound.knows thread
      simp only [Knows,undoing] at knows
      simp only [Knows,show next.threads thread = _ from undoing]
      exact knows
    have quiet : Quiet sys next thread := quiet_of (fun _ _ => rfl) rfl rfl rfl (by rw [undoing]; rfl)
    exact quiet.sound mine sound rfl same
  have point' : next.threads thread = .undoing caller index count := undoing
  have outcome : Outcome next (next.setPoint thread point) thread act :=
    pushed.back back (by rw [point']; rfl) (by rw [point']; rfl) (by rw [point']; rfl)
  refine ⟨outcome.sound,outcome.placed.imp (fun still => still.trans same) ?_⟩
  rintro ⟨fiber,source,target,transfer,lost⟩
  refine ⟨fiber,source,target,same ▸ transfer,fun gone => ?_⟩
  have loses := lost gone
  simp only [Loses,point'] at loses

omit [DecidableEq Thread] in
theorem card_carry (carries : Fin size → Option Counter) {fiber : Fin size} (free : carries fiber = none)
    (count own : Counter) :
    (Finset.univ.filter fun other => Function.update carries fiber (some count) other = some own).card =
      (Finset.univ.filter fun other => carries other = some own).card + if own = count then 1 else 0 := by
  by_cases same : own = count
  · subst same
    have more : (Finset.univ.filter fun other => Function.update carries fiber (some own) other = some own) =
        insert fiber (Finset.univ.filter fun other => carries other = some own) := by
      ext other
      by_cases here : other = fiber <;> simp [here]
    rw [more,Finset.card_insert_of_notMem (by simp [free]),if_pos rfl]
  · rw [if_neg same,Nat.add_zero]
    congr 1
    ext other
    by_cases here : other = fiber
    · subst here
      simp [free,Ne.symm same]
    · simp [here]

omit [DecidableEq Thread] in
theorem card_process (carries : Fin size → Option Counter) {fiber : Fin size} {count : Counter}
    (carried : carries fiber = some count) (own : Counter) :
    (Finset.univ.filter fun other => carries other = some own).card =
      (Finset.univ.filter fun other => Function.update carries fiber none other = some own).card +
        if own = count then 1 else 0 := by
  have back := card_carry (Function.update carries fiber none) (Function.update_self fiber none carries) count own
  rwa [Function.update_idem,← carried,Function.update_eq_self] at back

theorem still_woken {next : Sys size Thread Counter Work} {count : Counter}
    (others : ∀ other, other ≠ thread → next.threads other = sys.threads other)
    (wakes : (sys.threads thread).wakes ≠ some count) {waker : Thread} (waking : (sys.threads waker).wakes = some count) :
    (next.threads waker).wakes = some count := by
  rwa [others waker fun here => wakes (here ▸ waking)]

theorem Settled.balanced {next : Sys size Thread Counter Work} {count : Counter} {batch after : Batch size}
    (settled : sys.Settled count batch) (counters : next.counters count = sys.counters count)
    (balance : next.live count + after.missing = sys.live count + batch.missing) (woken : after.woken = batch.woken)
    (others : ∀ other, other ≠ thread → next.threads other = sys.threads other)
    (wakes : (sys.threads thread).wakes ≠ some count) : next.Settled count after := by
  refine ⟨?_,?_,?_,?_⟩ <;> rw [counters]
  · have counted := settled.counted
    omega
  · rw [woken]
    exact settled.asleep
  · intro zero
    rw [woken]
    rcases settled.awake zero with all | ⟨waker,waking⟩
    · exact .inl all
    · exact .inr ⟨waker,still_woken others wakes waking⟩
  · exact settled.distinct

theorem Settled.congr {next : Sys size Thread Counter Work} {count : Counter} {batch : Batch size}
    (settled : sys.Settled count batch) (counters : next.counters count = sys.counters count)
    (live : next.live count = sys.live count)
    (others : ∀ other, other ≠ thread → next.threads other = sys.threads other)
    (wakes : (sys.threads thread).wakes ≠ some count) : next.Settled count batch :=
  settled.balanced counters (by rw [live]) rfl others wakes

theorem Sound.record (sound : sys.Sound) {fiber : Fin size} {count : Counter} {len : Nat}
    (recording : sys.threads thread = .recording fiber count len) :
    Outcome sys ((sys.record fiber count len).setPoint thread (.releasing count)) thread act := by
  let next := (sys.record fiber count len).setPoint thread (.releasing count)
  have others : ∀ other, other ≠ thread → next.threads other = sys.threads other := fun other => setPoint_other _
  have point : next.threads thread = .releasing count := setPoint_same _
  have held : sys.holds thread = some count := by simp only [holds,recording]
  have knows := sound.knows thread
  simp only [Knows,recording] at knows
  obtain ⟨bears,live,rfl⟩ := knows
  obtain ⟨batch,set⟩ := Option.isSome_iff_exists.mp (sound.known thread count (by rw [recording]; rfl))
  have asleep := (sound.settled count batch set).asleep live
  have apart : ∀ own, own ≠ count → next.counters own = sys.counters own :=
    fun own different => Function.update_of_ne different ..
  have recorded : next.counters count =
      { sys.counters count with waiters := (sys.counters count).waiters ++ [fiber] } := by
    refine (Function.update_self ..).trans ?_
    rw [List.take_length]
  have waiting : sys.pending count = (sys.counters count).waiters := by
    simp only [pending,set,asleep,List.length_nil,List.drop_zero]
  have waiting' : next.pending count = (sys.counters count).waiters ++ [fiber] := by
    have set' : next.batches count = some batch := set
    simp only [pending,set',asleep,List.length_nil,List.drop_zero,recorded]
  have transfer : Transfer sys.contents next.contents fiber (.hand thread) (some (.waiting count)) := by
    refine transfer_of others (by simp) ?_ ?_ (fun _ _ => rfl) (fun _ _ _ => rfl) ?_ (by simp) ?_
    · simp [contents,point,recording]
    · rintro place ⟨⟩
      change (next.pending count).Perm (fiber::sys.pending count)
      rw [waiting,waiting']
      exact List.perm_append_singleton ..
    · simp [point,recording]
    · intro own _ different
      have different : own ≠ count := fun same => different (by rw [same])
      have set' : next.batches own = sys.batches own := rfl
      simp only [pending,apart own different,set']
  have frame : Frame sys next thread := by
    refine ⟨others,fun _ _ _ _ => ⟨rfl,rfl⟩,fun other different own held' => ⟨apart own ?_,rfl⟩,fun _ _ _ _ => rfl,
      fun _ => id⟩
    rintro rfl
    exact sound.apart held other different held'
  have mine : Mine sys next thread := by
    refine ⟨fun own held' => ?_,by simp [point],?_,by simp [Knows,point]⟩
    · simp only [holds,point,Option.some.injEq] at held'
      subst held'
      refine ⟨?_,sound.apart held⟩
      rw [recorded]
      exact sound.locked thread count held
    · rw [point]
      rintro own ⟨⟩
      exact Option.isSome_iff_exists.mpr ⟨batch,set⟩
  refine ⟨frame.sound mine sound (sound.tidy.transfer transfer) ?_ sound.carried ?_,.inr ⟨_,_,_,transfer,by rintro ⟨⟩⟩⟩
  · intro own other set'
    have settled := sound.settled own other set'
    by_cases same : own = count
    · subst same
      refine ⟨?_,?_,?_,?_⟩ <;> rw [recorded]
      · exact settled.counted
      · exact settled.asleep
      · exact fun zero => absurd zero live
      · have distinct := (sound.tidy.transfer transfer).nodup (.waiting own)
        simp only [contents] at distinct
        rwa [waiting'] at distinct
    · exact settled.congr (apart own same) rfl others (by rw [recording]; simp [Point.wakes])
  · refine sound.fits_moved transfer (fun _ _ => rfl) (fun _ _ => rfl) ?_
    rintro place ⟨⟩
    exact Bears.congr bears rfl rfl

theorem Sound.store (sound : sys.Sound) {fiber : Fin size} {count : Counter} {value : Int}
    (storing : sys.threads thread = .storing fiber count value) :
    Outcome sys ((sys.store fiber count (value-1)).setPoint thread (.judging fiber count)) thread act := by
  let next := (sys.store fiber count (value-1)).setPoint thread (.judging fiber count)
  have others : ∀ other, other ≠ thread → next.threads other = sys.threads other := fun other => setPoint_other _
  have point : next.threads thread = .judging fiber count := setPoint_same _
  have held : sys.holds thread = some count := by simp only [holds,storing]
  have knows := sound.knows thread
  simp only [Knows,storing] at knows
  obtain ⟨carries,rfl⟩ := knows
  obtain ⟨batch,set⟩ := Option.isSome_iff_exists.mp (sound.known thread count (by rw [storing]; rfl))
  have settled := sound.settled count batch set
  have processed : ∀ own, sys.live own = next.live own + if own = count then 1 else 0 :=
    card_process sys.carries carries
  have one := processed count
  rw [if_pos rfl] at one
  have counted := settled.counted
  have asleep := settled.asleep (by omega)
  have apart : ∀ own, own ≠ count → next.counters own = sys.counters own :=
    fun own different => Function.update_of_ne different ..
  have stored : next.counters count =
      { sys.counters count with counter := (sys.counters count).counter - 1 } := Function.update_self ..
  have waiters : ∀ own, (next.counters own).waiters = (sys.counters own).waiters := by
    intro own
    by_cases same : own = count
    · rw [same,stored]
    · rw [apart own same]
  have free : next.carries fiber = none := Function.update_self ..
  have keep : ∀ other, other ≠ fiber → next.carries other = sys.carries other :=
    fun other different => Function.update_of_ne different ..
  have mineHand : fiber ∈ sys.contents (.hand thread) := by simp [contents,storing]
  have same : next.contents = sys.contents := by
    refine contents_eq rfl rfl others ?_ ?_ (pending_eq (fun _ => rfl) waiters) <;> simp [point,storing]
  have frame : Frame sys next thread := by
    refine ⟨others,fun other different item hand => ⟨rfl,keep item ?_⟩,
      fun other different own held' => ⟨apart own ?_,rfl⟩,fun _ _ _ _ => rfl,fun _ => id⟩
    · rintro rfl
      exact different (Place.hand.inj (sound.hand_alone hand mineHand)).symm
    · rintro rfl
      exact sound.apart held other different held'
  have mine : Mine sys next thread := by
    refine ⟨fun own held' => ?_,by simp [point],?_,?_⟩
    · simp only [holds,point,Option.some.injEq] at held'
      subst held'
      refine ⟨?_,sound.apart held⟩
      rw [stored]
      exact sound.locked thread count held
    · rw [point]
      rintro own ⟨⟩
      exact Option.isSome_iff_exists.mpr ⟨batch,set⟩
    · simp only [Knows,point]
      refine ⟨free,fun other set' => ?_⟩
      cases set.symm.trans set'
      exact asleep
  refine ⟨frame.sound mine sound (same ▸ sound.tidy) ?_ ?_ ?_,.inl same⟩
  · intro own other set'
    by_cases here : own = count
    · subst here
      cases set.symm.trans set'
      have less : (next.counters own).counter = (sys.counters own).counter - 1 := congrArg VgcCounter.counter stored
      refine ⟨by omega,fun _ => asleep,fun _ => .inr ⟨thread,by rw [point]; rfl⟩,?_⟩
      rw [waiters]
      exact settled.distinct
    · refine (sound.settled own other set').congr (apart own here) ?_ others (by rw [storing]; simp [Point.wakes])
      simpa [here] using (processed own).symm
  · intro other own carried
    by_cases here : other = fiber
    · rw [here,free] at carried
      cases carried
    · rw [keep other here] at carried
      exact sound.carried other own carried
  · intro other place found
    rw [same] at found
    by_cases here : other = fiber
    · subst here
      cases sound.tidy.once other _ _ mineHand found
      trivial
    · exact Fits.congr (sound.fits other place found) rfl (keep other here)

theorem Sound.turned (sound : sys.Sound) {fiber waiter : Fin size} {count : Counter} {index : Nat}
    (waking : sys.threads thread = .waking fiber count index)
    (recorded : (sys.counters count).waiters[index]? = some waiter) (goal : Option RunQueue)
    {queues : RunQueue → List (Fin size)} (kept : ∀ queue, goal ≠ some queue → queues queue = sys.queues queue)
    (joined : ∀ queue, goal = some queue → queues queue = sys.queues queue ++ [waiter])
    (lost : goal = none → act.fails = true) :
    Outcome sys (({ sys with queues := queues }.turn waiter count).setPoint thread (.waking fiber count (index+1)))
      thread act := by
  have held : sys.holds thread = some count := by simp only [holds,waking]
  have knows := sound.knows thread
  simp only [Knows,waking] at knows
  obtain ⟨free,zero,inside,woken⟩ := knows
  obtain ⟨batch,set⟩ := Option.isSome_iff_exists.mp (sound.known thread count (by rw [waking]; rfl))
  obtain ⟨less,here⟩ := List.getElem?_eq_some_iff.mp recorded
  have woken := woken batch set
  have pending : sys.contents (.waiting count : Place Thread Counter) = (sys.counters count).waiters.drop index := by
    simp [contents,Sys.pending,set,woken,Nat.min_eq_left inside]
  have waits : waiter ∈ sys.contents (.waiting count : Place Thread Counter) := by
    rw [pending,List.drop_eq_getElem_cons less,here]
    exact List.mem_cons_self ..
  have bears : sys.Bears waiter := sound.fits waiter (.waiting count) waits
  set next := setPoint _ thread (.waking fiber count (index+1))
  have others : ∀ other, other ≠ thread → next.threads other = sys.threads other := fun other => setPoint_other _
  have point : next.threads thread = .waking fiber count (index+1) := setPoint_same _
  have set' : next.batches count = some { batch with woken := batch.woken ++ [waiter] } :=
    (Function.update_self ..).trans (congrArg _ set)
  have apart : ∀ own, own ≠ count → next.batches own = sys.batches own :=
    fun own different => Function.update_of_ne different ..
  have taken : batch.woken ++ [waiter] = (sys.counters count).waiters.take (index+1) := by
    rw [woken,List.take_add_one,recorded]
    rfl
  have pending' : next.contents (.waiting count : Place Thread Counter) = (sys.counters count).waiters.drop (index+1) := by
    have long : (batch.woken ++ [waiter]).length = index + 1 := by
      rw [taken,List.length_take,Nat.min_eq_left less]
    simp only [contents,Sys.pending,set',long]
    rfl
  have transfer : Transfer sys.contents next.contents waiter (.waiting count) (goal.map .queue) := by
    refine transfer_of others ?_ ?_ ?_ (fun _ _ => rfl) ?_ ?_ ?_ ?_
    · simp
    · rw [pending,pending',List.drop_eq_getElem_cons less,here]
    · intro place target
      obtain ⟨queue,chosen,rfl⟩ := Option.map_eq_some_iff.mp target
      have queued : next.contents (.queue queue : Place Thread Counter) = sys.queues queue ++ [waiter] :=
        joined queue chosen
      rw [queued]
      exact List.perm_append_singleton ..
    · exact fun other _ different => kept other fun chosen => different (congrArg (Option.map Place.queue) chosen)
    · simp [point,waking]
    · simp [point,waking]
    · intro own different _
      have counters : next.counters own = sys.counters own := rfl
      simp only [Sys.pending,apart own fun same => different (by rw [same]),counters]
  have frame : Frame sys next thread := by
    refine ⟨others,fun _ _ _ _ => ⟨rfl,rfl⟩,fun other different own held' => ⟨rfl,?_⟩,?_,?_⟩
    · rw [apart own]
      rintro rfl
      exact sound.apart held other different held'
    · intro other different own _
      by_cases same : own = count
      · rw [same,set',set]
        rfl
      · rw [apart own same]
    · intro own some_batch
      by_cases same : own = count
      · rw [same,set']
        rfl
      · rwa [apart own same]
  have mine : Mine sys next thread := by
    refine ⟨fun own held' => ?_,by simp [point],?_,?_⟩
    · simp only [holds,point,Option.some.injEq] at held'
      subst held'
      exact ⟨sound.locked thread count held,sound.apart held⟩
    · rw [point]
      rintro own ⟨⟩
      rw [set']
      rfl
    · simp only [Knows,point]
      refine ⟨free,zero,less,fun other set'' => ?_⟩
      cases set'.symm.trans set''
      exact taken
  refine ⟨frame.sound mine sound (sound.tidy.transfer transfer) ?_ ?_ ?_,.inr ⟨_,_,_,transfer,fun gone => ?_⟩⟩
  · intro own other set''
    by_cases same : own = count
    · subst same
      cases set'.symm.trans set''
      have settled := sound.settled own batch set
      exact ⟨settled.counted,fun live => absurd zero live,fun _ => .inr ⟨thread,by rw [point]; rfl⟩,settled.distinct⟩
    · rw [apart own same] at set''
      refine (sound.settled own other set'').congr rfl rfl others ?_
      rw [waking]
      exact fun woken => same (Option.some.inj woken).symm
  · intro other own carried
    exact frame.known own (sound.carried other own carried)
  · refine sound.fits_moved transfer (fun _ _ => rfl) (fun _ _ => rfl) fun place target => ?_
    obtain ⟨queue,_,rfl⟩ := Option.map_eq_some_iff.mp target
    exact Bears.congr bears rfl rfl
  · simp only [Loses,waking]
    exact lost (Option.map_eq_none_iff.mp gone)

theorem Sound.wake_eq (sound : sys.Sound) {fiber waiter : Fin size} {count : Counter} {index : Nat}
    (waking : sys.threads thread = .waking fiber count index)
    (recorded : (sys.counters count).waiters[index]? = some waiter) :
    ∃ queue, sys.wake waiter count =
      { sys with queues := Function.update sys.queues queue (sys.queues queue ++ [waiter]) }.turn waiter count := by
  have knows := sound.knows thread
  simp only [Knows,waking] at knows
  obtain ⟨_,_,inside,woken⟩ := knows
  obtain ⟨batch,set⟩ := Option.isSome_iff_exists.mp (sound.known thread count (by rw [waking]; rfl))
  obtain ⟨less,here⟩ := List.getElem?_eq_some_iff.mp recorded
  have waits : waiter ∈ sys.contents (.waiting count : Place Thread Counter) := by
    change waiter ∈ sys.pending count
    simp only [Sys.pending,set,woken batch set,List.length_take,Nat.min_eq_left inside]
    rw [List.drop_eq_getElem_cons less,here]
    exact List.mem_cons_self ..
  obtain ⟨queue,valid⟩ := Option.isSome_iff_exists.mp (sound.fits waiter (.waiting count) waits).queue
  refine ⟨queue,?_⟩
  simp only [Sys.wake,valid,Option.bind_some,enqueue_room (sound.queue_room waits (by simp)),Option.getD_some]

theorem Sound.wake (sound : sys.Sound) {fiber waiter : Fin size} {count : Counter} {index : Nat}
    (waking : sys.threads thread = .waking fiber count index)
    (recorded : (sys.counters count).waiters[index]? = some waiter) :
    Outcome sys ((sys.wake waiter count).setPoint thread (.waking fiber count (index+1))) thread act := by
  obtain ⟨queue,woke⟩ := sound.wake_eq waking recorded
  rw [woke]
  refine sound.turned waking recorded (some queue) (fun other different => ?_) ?_ nofun
  · exact Function.update_of_ne (fun same => different (by rw [same])) ..
  · rintro _ ⟨⟩
    exact Function.update_self ..

/-- The waiter whose push fails is lost. -/
theorem Sound.skip (sound : sys.Sound) {fiber waiter : Fin size} {count : Counter} {index : Nat}
    (waking : sys.threads thread = .waking fiber count index)
    (recorded : (sys.counters count).waiters[index]? = some waiter) (fails : act.fails = true) :
    Outcome sys ((sys.turn waiter count).setPoint thread (.waking fiber count (index+1))) thread act :=
  sound.turned waking recorded none (fun _ _ => rfl) nofun fun _ => fails

theorem carry_batches (fiber : Fin size) (count : Option Counter) (own : Counter) :
    (sys.carry fiber count).batches own = if count = some own then
      (sys.batches own).map fun batch => { batch with missing := batch.missing - 1 } else sys.batches own := by
  cases count with
  | none => rfl
  | some count =>
    by_cases same : own = count
    · subst same
      simp [carry]
    · simp [carry,same,Ne.symm same]

theorem carry_carries (fiber : Fin size) (count : Option Counter) :
    (sys.carry fiber count).carries = Function.update sys.carries fiber count := by
  cases count <;> rfl

theorem carry_live {fiber : Fin size} (free : sys.carries fiber = none) (count : Option Counter) (own : Counter) :
    (sys.carry fiber count).live own = sys.live own + if count = some own then 1 else 0 := by
  unfold live
  rw [carry_carries]
  cases count with
  | none => rw [Function.update_eq_self_iff.mpr free.symm,if_neg (Option.some_ne_none own).symm,Nat.add_zero]
  | some count =>
    rw [card_carry sys.carries free]
    simp [eq_comm]

theorem carry_frame (fiber : Fin size) (count : Option Counter) : (sys.carry fiber count).threads = sys.threads ∧
    (sys.carry fiber count).queues = sys.queues ∧ (sys.carry fiber count).freeQPool = sys.freeQPool ∧
    (sys.carry fiber count).counters = sys.counters ∧ (sys.carry fiber count).fibers = sys.fibers := by
  cases count <;> exact ⟨rfl,rfl,rfl,rfl,rfl⟩

theorem Sound.dispatch (sound : sys.Sound) {caller : Caller size} {index : Nat} {fiber : Fin size}
    {job : VgcJob Work} {jobs : List (VgcJob Work)} {count : Option Counter} {queue : RunQueue}
    (assigning : sys.threads thread = .assigning caller index fiber job jobs count)
    (valid : job.priority.queue = some queue) :
    Outcome sys (({ sys.assign fiber job count with
      queues := Function.update sys.queues queue (sys.queues queue ++ [fiber]) }.carry fiber count).setPoint thread
        (.scheduling caller (index+1) jobs count)) thread act := by
  set enqueued : Sys size Thread Counter Work := { sys.assign fiber job count with
    queues := Function.update sys.queues queue (sys.queues queue ++ [fiber]) }
  set next := (enqueued.carry fiber count).setPoint thread (.scheduling caller (index+1) jobs count)
  obtain ⟨threads,queues,pool,counters,fibers⟩ := enqueued.carry_frame fiber count
  have others : ∀ other, other ≠ thread → next.threads other = sys.threads other := by
    intro other different
    rw [setPoint_other _ different,threads]
    rfl
  have point : next.threads thread = .scheduling caller (index+1) jobs count := setPoint_same _
  have counters : next.counters = sys.counters := counters
  have batches : ∀ own, next.batches own = if count = some own then
      (sys.batches own).map fun batch => { batch with missing := batch.missing - 1 } else sys.batches own :=
    enqueued.carry_batches fiber count
  have carries : next.carries = Function.update sys.carries fiber count := enqueued.carry_carries fiber count
  have own_fd : next.fibers fiber =
      { sys.fibers fiber with work := some job.work, priority := job.priority, parentCount := count } :=
    (congrFun fibers fiber).trans (Function.update_self ..)
  have keep_fd : ∀ other, other ≠ fiber → next.fibers other = sys.fibers other :=
    fun other different => (congrFun fibers other).trans (Function.update_of_ne different ..)
  have keep : ∀ other, other ≠ fiber → next.carries other = sys.carries other := by
    intro other different
    rw [carries,Function.update_of_ne different]
  have knows := sound.knows thread
  simp only [Knows,assigning] at knows
  obtain ⟨free,missing⟩ := knows
  have woken : ∀ own, (next.batches own).map Batch.woken = (sys.batches own).map Batch.woken := by
    intro own
    rw [batches]
    split
    next => rw [Option.map_map]; rfl
    next => rfl
  have pending : next.pending = sys.pending := pending_eq woken fun own => by rw [counters]
  have known : ∀ own, (sys.batches own).isSome → (next.batches own).isSome := by
    intro own set
    have same := congrArg Option.isSome (woken own)
    rwa [Option.isSome_map,Option.isSome_map,set] at same
  have inHand : fiber ∈ sys.contents (.hand thread) := by simp [contents,assigning]
  have transfer : Transfer sys.contents next.contents fiber (.hand thread) (some (.queue queue)) := by
    refine transfer_of others (by simp) ?_ ?_ ?_ ?_ ?_ (by simp) fun own _ _ => congrFun pending own
    · simp [contents,point,assigning]
    · rintro place ⟨⟩
      have queued : next.contents (.queue queue : Place Thread Counter) = sys.queues queue ++ [fiber] :=
        (congrFun queues queue).trans (Function.update_self ..)
      rw [queued]
      exact List.perm_append_singleton ..
    · intro _ _
      exact congrArg (List.filterMap Pooled.held) pool
    · intro other _ different
      exact (congrFun queues other).trans (Function.update_of_ne (fun same => different (by rw [same])) ..)
    · simp [point,assigning]
  have frame : Frame sys next thread := by
    refine ⟨others,fun other different item hand => ?_,fun other different own _ => ⟨by rw [counters],woken own⟩,?_,known⟩
    · have apart : item ≠ fiber := by
        rintro rfl
        exact different (Place.hand.inj (sound.hand_alone hand inHand)).symm
      exact ⟨keep_fd item apart,keep item apart⟩
    · intro other different own scheduling
      rw [batches,if_neg]
      rintro rfl
      exact different (sound.sole other thread own scheduling (by rw [assigning]; rfl))
  have mine : Mine sys next thread := by
    refine ⟨by simp [holds,point],?_,by simp [point],?_⟩
    · rw [point]
      rintro own rfl other different scheduling
      exact different (sound.sole other thread own scheduling (by rw [assigning]; rfl))
    · simp only [Knows,point]
      cases count with
      | none => trivial
      | some own =>
        obtain ⟨batch,set,many⟩ := missing own rfl
        exact ⟨{ batch with missing := batch.missing - 1 },by rw [batches,if_pos rfl,set]; rfl,by simp [many]⟩
  have live : ∀ own, next.live own = sys.live own + if count = some own then 1 else 0 :=
    fun own => enqueued.carry_live (show enqueued.carries fiber = none from free) count own
  refine ⟨frame.sound mine sound (sound.tidy.transfer transfer) ?_ ?_ ?_,.inr ⟨_,_,_,transfer,by rintro ⟨⟩⟩⟩
  · intro own after set'
    have counter : next.counters own = sys.counters own := by rw [counters]
    have wakes : (sys.threads thread).wakes ≠ some own := by
      rw [assigning]
      simp [Point.wakes]
    rw [batches] at set'
    split at set'
    next scheduled =>
      obtain ⟨batch,set,many⟩ := missing own scheduled
      rw [set] at set'
      cases set'
      have more := live own
      rw [if_pos scheduled] at more
      refine (sound.settled own batch set).balanced counter ?_ rfl others wakes
      simp only
      omega
    next other =>
      refine (sound.settled own after set').congr counter ?_ others wakes
      rw [live,if_neg other,Nat.add_zero]
  · intro other own carried
    by_cases here : other = fiber
    · rw [here,carries,Function.update_self] at carried
      obtain ⟨batch,set,_⟩ := missing own carried
      exact known own (by rw [set]; rfl)
    · rw [keep other here] at carried
      exact known own (sound.carried other own carried)
  · refine sound.fits_moved transfer keep_fd keep ?_
    rintro place ⟨⟩
    refine ⟨?_,?_⟩ <;> rw [own_fd]
    · rw [carries,Function.update_self]
    · simp [valid]

theorem Sound.schedule (sound : sys.Sound) {fiber : Fin size} {jobs : List (VgcJob Work)} {len : Int}
    {count : Option Counter} {fatal : Bool} (running : sys.threads thread = .running fiber)
    (permitted : sys.Permits (thread,.schedule jobs len count fatal)) :
    Outcome sys ((sys.initCounter len count).setPoint thread
      (.scheduling (.fiber fiber fatal) 0 (jobs.take len.toNat) count)) thread act := by
  cases count with
  | none =>
    refine sound.point ⟨?_,?_,?_,?_,?_⟩ ?_ ?_ <;> simp [running,holds,Knows,Caller.own]
  | some count =>
    obtain ⟨natural,enough,idle⟩ := permitted
    set next := (sys.initCounter len (some count)).setPoint thread
      (.scheduling (.fiber fiber fatal) 0 (jobs.take len.toNat) (some count))
    have others : ∀ other, other ≠ thread → next.threads other = sys.threads other := fun other => setPoint_other _
    have point : next.threads thread = .scheduling (.fiber fiber fatal) 0 (jobs.take len.toNat) (some count) :=
      setPoint_same _
    have set' : next.batches count = some ⟨len.toNat,[]⟩ := (Function.update_self ..).trans (if_pos natural)
    have init : next.counters count = vgcCounterInit len := Function.update_self ..
    have apart : ∀ own, own ≠ count → next.counters own = sys.counters own :=
      fun own different => Function.update_of_ne different ..
    have apart' : ∀ own, own ≠ count → next.batches own = sys.batches own :=
      fun own different => Function.update_of_ne different ..
    have pending : next.pending = sys.pending := by
      funext own
      by_cases same : own = count
      · subst same
        rw [idle.empty]
        simp only [Sys.pending,set',init]
        rfl
      · simp only [Sys.pending,apart own same,apart' own same]
    have known : ∀ own, (sys.batches own).isSome → (next.batches own).isSome := by
      intro own some_batch
      by_cases same : own = count
      · rw [same,set']
        rfl
      · rwa [apart' own same]
    have frame : Frame sys next thread := by
      refine ⟨others,fun _ _ _ _ => ⟨rfl,rfl⟩,fun other _ own held => ?_,fun other _ own scheduling => ?_,known⟩
      · have different : own ≠ count := fun same => idle.unheld other (same ▸ held)
        exact ⟨apart own different,by rw [apart' own different]⟩
      · rw [apart' own fun same => idle.unscheduled other (same ▸ scheduling)]
    have mine : Mine sys next thread := by
      refine ⟨by simp [holds,point],?_,by simp [point],?_⟩
      · rw [point]
        rintro own ⟨⟩ other _
        exact idle.unscheduled other
      · simp only [Knows,point]
        refine ⟨_,set',?_⟩
        rw [List.length_take,Nat.min_eq_left (Int.toNat_le.mpr enough)]
    have same : next.contents = sys.contents := by
      refine contents_eq rfl rfl others ?_ ?_ pending <;> simp [point,running,Caller.own]
    refine ⟨frame.sound mine sound (same ▸ sound.tidy) ?_ ?_ ?_,.inl same⟩
    · intro own batch set
      by_cases here : own = count
      · subst here
        cases set'.symm.trans set
        have none_live : next.live own = 0 :=
          Finset.card_eq_zero.mpr (Finset.filter_eq_empty_iff.mpr fun other _ => idle.processed other)
        refine ⟨?_,fun _ => rfl,fun _ => .inl ?_,?_⟩ <;> rw [init]
        · rw [none_live]
          change len = (0 : Nat) + ((len.toNat : Nat) : Int)
          omega
        · rfl
        · exact List.nodup_nil
      · rw [apart' own here] at set
        exact (sound.settled own batch set).congr (apart own here) rfl others (by rw [running]; simp [Point.wakes])
    · exact fun other own carried => known own (sound.carried other own carried)
    · intro other place found
      rw [same] at found
      exact Fits.congr (sound.fits other place found) rfl rfl

theorem Sound.still_missing (sound : sys.Sound) {caller : Caller size} {index : Nat} {fiber : Fin size}
    {job : VgcJob Work} {jobs : List (VgcJob Work)} {count : Option Counter}
    (assigning : sys.threads thread = .assigning caller index fiber job jobs count) :
    ∀ own, count = some own → ∃ batch, sys.batches own = some batch ∧ batch.missing ≠ 0 := by
  have knows := sound.knows thread
  simp only [Knows,assigning] at knows
  intro own same
  obtain ⟨batch,set,missing⟩ := knows.2 own same
  exact ⟨batch,set,by omega⟩

theorem Sound.step {next : Sys size Thread Counter Work} {act : Act Counter Work} (sound : sys.Sound)
    (permitted : sys.Permits (thread,act)) (step : Step sys thread act next) : Outcome sys next thread act := by
  have known := sound.known thread
  have knows := sound.knows thread
  unfold Knows at knows
  cases step with
  | enque point => refine sound.point ⟨?_,?_,?_,?_,?_⟩ ?_ ?_ <;> simp [point,holds,Knows,Caller.own]
  | enter point => refine sound.point ⟨?_,?_,?_,?_,?_⟩ ?_ ?_ <;> simp [point,holds,Knows]
  | wait point =>
    refine sound.point ⟨?_,?_,?_,?_,?_⟩ ?_ ?_ <;> simp [point,holds,Knows]
    exact permitted
  | pass point empty => refine sound.point ⟨?_,?_,?_,?_,?_⟩ ?_ ?_ <;> simp [point,holds,Knows]
  | scheduled point back => exact sound.back back (by rw [point]; rfl) (by rw [point]; rfl) (by rw [point]; rfl)
  | starved point empty back => exact sound.back back (by rw [point]; rfl) (by rw [point]; rfl) (by rw [point]; rfl)
  | acquire point free =>
    rw [point] at known
    refine sound.lock ⟨?_,?_,?_,?_,?_⟩ (fun other _ => sound.unheld free other) ?_ ?_ <;> simp [point,holds,Knows]
    exact known _ rfl
  | ended point zero =>
    rw [point] at known
    refine sound.point ⟨?_,?_,?_,?_,?_⟩ ?_ ?_ <;> simp [point,holds,Knows]
    · exact known _ rfl
    · exact zero
  | block point live =>
    rw [point] at known
    refine sound.point ⟨?_,?_,?_,?_,?_⟩ ?_ ?_ <;> simp [point,holds,Knows]
    · exact known _ rfl
    · exact live
  | measure point live =>
    rw [point] at known
    refine sound.point ⟨?_,?_,?_,?_,?_⟩ ?_ ?_ <;> simp [point,holds,Knows]
    · exact known _ rfl
    · exact live
  | full point full =>
    rw [point] at known
    refine sound.point ⟨?_,?_,?_,?_,?_⟩ ?_ ?_ <;> simp [point,holds,Knows]
    exact known _ rfl
  | room point room =>
    rw [point] at known knows
    refine sound.point ⟨?_,?_,?_,?_,?_⟩ ?_ ?_ <;> simp [point,holds,Knows]
    · exact known _ rfl
    · exact knows
  | @leave fiber count err point =>
    have held : sys.holds thread = some count := by simp only [holds,point]
    refine sound.lock ⟨?_,?_,?_,?_,?_⟩ (sound.apart held) ?_ ?_ <;> simp [point,holds,Knows]
  | waits point state dependency =>
    rw [point] at known knows
    obtain ⟨own,dependency',set,live⟩ := knows.2 state
    cases dependency.symm.trans dependency'
    refine sound.point ⟨?_,?_,?_,?_,?_⟩ ?_ ?_ <;> simp [point,holds,Knows,state,dependency]
    · exact set
    · exact ⟨⟨knows.1.carries,knows.1.queue⟩,live⟩
  | done point state parent =>
    rw [point] at known knows
    have carries := knows.1.carries
    rw [parent] at carries
    refine sound.point ⟨?_,?_,?_,?_,?_⟩ ?_ ?_ <;> simp [point,holds,Knows]
    · exact sound.carried _ _ carries
    · exact carries
  | add point room =>
    rw [point] at known knows
    refine sound.point ⟨?_,?_,?_,?_,?_⟩ ?_ ?_ <;> simp [point,holds,Knows]
    · exact known _ rfl
    · exact ⟨⟨knows.1.carries,knows.1.queue⟩,knows.2,rfl⟩
  | @release count point =>
    have held : sys.holds thread = some count := by simp only [holds,point]
    refine sound.lock ⟨?_,?_,?_,?_,?_⟩ (sound.apart held) ?_ ?_ <;> simp [point,holds,Knows]
  | complete point free =>
    rw [point] at known knows
    refine sound.lock ⟨?_,?_,?_,?_,?_⟩ (fun other _ => sound.unheld free other) ?_ ?_ <;> simp [point,holds,Knows]
    · exact known _ rfl
    · exact knows
  | load point =>
    rw [point] at known knows
    refine sound.point ⟨?_,?_,?_,?_,?_⟩ ?_ ?_ <;> simp [point,holds,Knows]
    · exact known _ rfl
    · exact ⟨knows,rfl⟩
  | last point zero =>
    rw [point] at known knows
    refine sound.point ⟨?_,?_,?_,?_,?_⟩ ?_ ?_ <;> simp [point,holds,Knows]
    · exact known _ rfl
    · exact ⟨knows.1,zero,knows.2⟩
  | more point live =>
    rw [point] at known knows
    refine sound.point ⟨?_,?_,?_,?_,?_⟩ ?_ ?_ <;> simp [point,holds,Knows]
    · exact known _ rfl
    · exact fun batch set zero => absurd zero live
    · exact knows.1
  | woken point ended =>
    rw [point] at known knows
    obtain ⟨carries,_,inside,woken⟩ := knows
    have all := List.getElem?_eq_none_iff.mp ended
    refine sound.point ⟨?_,?_,?_,?_,?_⟩ ?_ ?_ <;> simp [point,holds,Knows]
    · exact known _ rfl
    · intro batch set _
      rw [woken batch set,List.take_of_length_le all]
    · exact carries
  | @unlock fiber count point =>
    rw [point] at knows
    have held : sys.holds thread = some count := by simp only [holds,point]
    refine sound.lock ⟨?_,?_,?_,?_,?_⟩ (sound.apart held) ?_ ?_ <;> simp [point,holds,Knows]
    exact knows
  | schedule point => exact sound.schedule point permitted
  | finish point => exact sound.jump (by rw [point]; rfl) (by rw [point]; rfl) (by rw [point]; rfl) rfl rfl (by rintro ⟨⟩)
  | resume point head => exact sound.resume point head
  | pop point head => exact sound.pop point head
  | @reject caller index fiber job jobs count point rejected =>
    refine sound.lose _ (by rw [point]; rfl) (by rw [point]; rfl) (by rw [point]; rfl) rfl ?_ ?_ ?_ ?_ ?_ <;>
      simp [point,holds,Knows,Loses]
    · exact sound.still_missing point
    · exact .inr rejected
  | dispatch point valid room => exact sound.dispatch point valid
  | undo point room back => exact sound.undo point back
  | @suspend fiber count point =>
    rw [point] at known knows
    refine sound.jump (by rw [point]; rfl) (by rw [point]; rfl) (by rw [point]; rfl) rfl rfl fun _ => ?_
    exact ⟨count,rfl,by simp only [holds,point],known count rfl,knows⟩
  | @drop fiber point state parent =>
    have same := sys.setFiber_self fiber
    have outcome : Outcome sys ((sys.setFiber fiber (sys.fibers fiber)).setPoint thread (.polling .hiQ)) thread .go := by
      refine sound.lose _ (by rw [point]; rfl) (by rw [point]; rfl) (by rw [point]; rfl) rfl ?_ ?_ ?_ ?_ ?_ <;>
        simp [point,holds,Knows,Loses]
      exact ⟨state,parent⟩
    rwa [same] at outcome
  | @overflow fiber count point full =>
    rw [point] at known
    have same := sys.setFiber_self fiber
    have outcome : Outcome sys ((sys.setFiber fiber (sys.fibers fiber)).setPoint thread (.releasing count)) thread .go := by
      refine sound.lose _ (by rw [point]; rfl) (by rw [point]; rfl) (by rw [point]; rfl) rfl ?_ ?_ ?_ ?_ ?_ <;>
        simp [point,holds,Knows,Loses]
      · exact known _ rfl
      · exact full
    rwa [same] at outcome
  | record point => exact sound.record point
  | store point => exact sound.store point
  | wake point recorded => exact sound.wake point recorded
  | skip point recorded => exact sound.skip point recorded rfl
  | miss point => refine sound.point ⟨?_,?_,?_,?_,?_⟩ ?_ ?_ <;> simp [point,holds,Knows]
  | denied point back => exact sound.back back (by rw [point]; rfl) (by rw [point]; rfl) (by rw [point]; rfl)
  | refuse point =>
    refine sound.lose _ (by rw [point]; rfl) (by rw [point]; rfl) (by rw [point]; rfl) rfl ?_ ?_ ?_ ?_ ?_ <;>
      simp [point,holds,Knows,Loses,Act.fails]
    exact sound.still_missing point
  | retire point room => exact sound.retire point

end Sys

end CSpock.Fibers
