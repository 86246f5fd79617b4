import CSpock.Fibers.Custody

/-! The invariant is kept by every step, as long as a counter is set only when no one
has to do with it any more, and waited for only after it was set. -/
set_option linter.unusedSectionVars false
namespace CSpock.Fibers
open CSpock.Library.Transition

variable {size : Nat} {Thread Counter Work : Type} [DecidableEq Thread] [DecidableEq Counter]

namespace Sys

structure Idle (sys : Sys size Thread Counter Work) (count : Counter) : Prop where
  unused : ∀ thread, (sys.threads thread).counter ≠ some count
  unheld : ∀ thread, sys.holds thread ≠ some count
  unscheduled : ∀ thread, (sys.threads thread).schedules ≠ some count
  processed : ∀ fiber, sys.carries fiber ≠ some count
  empty : sys.pending count = []

/-- What the users of counters keep to. -/
def Permits (sys : Sys size Thread Counter Work) (label : Thread × Act Counter Work) : Prop :=
  match label.2 with
  | .schedule jobs len (some count) _ => 0 ≤ len ∧ len ≤ jobs.length ∧ sys.Idle count
  | .wait count _ => (sys.batches count).isSome
  | _ => True

theorem idle_iff (sys : Sys size Thread Counter Work) (count : Counter) : sys.Idle count ↔
    (∀ thread, (sys.threads thread).counter ≠ some count ∧ sys.holds thread ≠ some count ∧
      (sys.threads thread).schedules ≠ some count) ∧
    (∀ fiber, sys.carries fiber ≠ some count) ∧ sys.pending count = [] :=
  ⟨fun idle => ⟨fun thread => ⟨idle.unused thread,idle.unheld thread,idle.unscheduled thread⟩,idle.processed,idle.empty⟩,
    fun ⟨threads,processed,empty⟩ => ⟨fun thread => (threads thread).1,fun thread => (threads thread).2.1,
      fun thread => (threads thread).2.2,processed,empty⟩⟩

instance [Fintype Thread] (sys : Sys size Thread Counter Work) (count : Counter) : Decidable (sys.Idle count) :=
  decidable_of_iff _ (sys.idle_iff count).symm

instance [Fintype Thread] (sys : Sys size Thread Counter Work) (label : Thread × Act Counter Work) :
    Decidable (sys.Permits label) :=
  match label with
  | (_,.schedule jobs len (some count) _) => inferInstanceAs (Decidable (0 ≤ len ∧ len ≤ jobs.length ∧ sys.Idle count))
  | (_,.schedule _ _ none _) => isTrue trivial
  | (_,.wait count _) => inferInstanceAs (Decidable ((sys.batches count).isSome = true))
  | (_,.enque _) => isTrue trivial
  | (_,.enter) => isTrue trivial
  | (_,.finish) => isTrue trivial
  | (_,.go) => isTrue trivial
  | (_,.fail) => isTrue trivial

variable {sys next : Sys size Thread Counter Work} {thread : Thread}

/-- A step does not touch what the other threads hold. -/
structure Frame (sys next : Sys size Thread Counter Work) (thread : Thread) : Prop where
  others : ∀ other, other ≠ thread → next.threads other = sys.threads other
  fibers : ∀ other, other ≠ thread → ∀ fiber, (sys.threads other).hand = some fiber →
    next.fibers fiber = sys.fibers fiber ∧ next.carries fiber = sys.carries fiber
  counters : ∀ other, other ≠ thread → ∀ count, sys.holds other = some count →
    next.counters count = sys.counters count ∧
      (next.batches count).map Batch.woken = (sys.batches count).map Batch.woken
  missing : ∀ other, other ≠ thread → ∀ count, (sys.threads other).schedules = some count →
    (next.batches count).map Batch.missing = (sys.batches count).map Batch.missing
  known : ∀ count, (sys.batches count).isSome → (next.batches count).isSome

namespace Frame

theorem holds (frame : Frame sys next thread) {other : Thread} (different : other ≠ thread) :
    next.holds other = sys.holds other := by
  have point := frame.others other different
  cases at_ : sys.threads other with
  | switched fiber =>
    have same := (frame.fibers other different fiber (by rw [at_]; rfl)).1
    simp only [Sys.holds,point,at_,same]
  | _ => simp only [Sys.holds,point,at_]

theorem woken (frame : Frame sys next thread) {other : Thread} (different : other ≠ thread) {count : Counter}
    (held : sys.holds other = some count) {list : List (Fin size)}
    (all : ∀ batch, sys.batches count = some batch → batch.woken = list) :
    ∀ batch, next.batches count = some batch → batch.woken = list := by
  intro batch set
  have same := (frame.counters other different count held).2
  rw [set,Option.map_some] at same
  obtain ⟨before,set',woken⟩ := Option.map_eq_some_iff.mp same.symm
  rw [← woken,all before set']

theorem missing_eq (frame : Frame sys next thread) {other : Thread} (different : other ≠ thread) {count : Counter}
    (scheduling : (sys.threads other).schedules = some count) {jobs : Nat}
    (some_batch : ∃ batch, sys.batches count = some batch ∧ batch.missing = jobs) :
    ∃ batch, next.batches count = some batch ∧ batch.missing = jobs := by
  obtain ⟨batch,set,missing⟩ := some_batch
  have same := frame.missing other different count scheduling
  rw [set,Option.map_some] at same
  obtain ⟨after,set',missing'⟩ := Option.map_eq_some_iff.mp same
  exact ⟨after,set',missing'.trans missing⟩

theorem bears (frame : Frame sys next thread) {other : Thread} (different : other ≠ thread) {fiber : Fin size}
    (held : (sys.threads other).hand = some fiber) (bears : sys.Bears fiber) : next.Bears fiber := by
  obtain ⟨fd,carries⟩ := frame.fibers other different fiber held
  exact ⟨by rw [carries,fd,bears.carries],by rw [fd]; exact bears.queue⟩

theorem knows (frame : Frame sys next thread) {other : Thread} (different : other ≠ thread)
    (knows : sys.Knows other) : next.Knows other := by
  have point := frame.others other different
  have fibers := frame.fibers other different
  have counters := frame.counters other different
  unfold Knows at knows ⊢
  rw [point]
  cases at_ : sys.threads other with
  | scheduling caller index jobs count =>
    rw [at_] at knows
    cases count with
    | none => trivial
    | some count => exact frame.missing_eq different (by rw [at_]; rfl) knows
  | assigning caller index fiber job jobs count =>
    rw [at_] at knows
    refine ⟨?_,fun own same => frame.missing_eq different (by rw [at_]; exact same) (knows.2 own same)⟩
    rw [(fibers fiber (by rw [at_]; rfl)).2]
    exact knows.1
  | undoing caller index count =>
    rw [at_] at knows
    intro own same
    obtain ⟨batch,set,more⟩ := knows own same
    obtain ⟨after,set',still⟩ := frame.missing_eq different (by rw [at_]; exact same) ⟨batch,set,rfl⟩
    exact ⟨after,set',still ▸ more⟩
  | measuring fiber count =>
    rw [at_] at knows
    simp only [(counters count (by simp only [Sys.holds,at_])).1]
    exact knows
  | leaving fiber count err =>
    rw [at_] at knows
    simp only [(counters count (by simp only [Sys.holds,at_])).1]
    exact knows
  | blocking fiber count =>
    rw [at_] at knows
    simp only [(counters count (by simp only [Sys.holds,at_])).1]
    exact knows
  | switched fiber =>
    rw [at_] at knows
    have held : (sys.threads other).hand = some fiber := by rw [at_]; rfl
    refine ⟨frame.bears different held knows.1,?_⟩
    simp only [(fibers fiber held).1]
    intro state
    obtain ⟨count,dependency,set,live⟩ := knows.2 state
    have same := (counters count (by simp only [Sys.holds,at_,state,if_true,dependency])).1
    exact ⟨count,dependency,frame.known count set,by rwa [same]⟩
  | adding fiber count =>
    rw [at_] at knows
    refine ⟨frame.bears different (by rw [at_]; rfl) knows.1,?_⟩
    simp only [(counters count (by simp only [Sys.holds,at_])).1]
    exact knows.2
  | recording fiber count len =>
    rw [at_] at knows
    refine ⟨frame.bears different (by rw [at_]; rfl) knows.1,?_⟩
    simp only [(counters count (by simp only [Sys.holds,at_])).1]
    exact knows.2
  | completing fiber count =>
    rw [at_] at knows
    simp only [(fibers fiber (by rw [at_]; rfl)).2]
    exact knows
  | loading fiber count =>
    rw [at_] at knows
    simp only [(fibers fiber (by rw [at_]; rfl)).2]
    exact knows
  | storing fiber count value =>
    rw [at_] at knows
    simp only [(fibers fiber (by rw [at_]; rfl)).2,(counters count (by simp only [Sys.holds,at_])).1]
    exact knows
  | judging fiber count =>
    rw [at_] at knows
    simp only [(fibers fiber (by rw [at_]; rfl)).2]
    exact ⟨knows.1,frame.woken different (by simp only [Sys.holds,at_]) knows.2⟩
  | waking fiber count index =>
    rw [at_] at knows
    have held : sys.holds other = some count := by simp only [Sys.holds,at_]
    simp only [(fibers fiber (by rw [at_]; rfl)).2,(counters count held).1]
    exact ⟨knows.1,knows.2.1,knows.2.2.1,frame.woken different held knows.2.2.2⟩
  | unlocking fiber count =>
    rw [at_] at knows
    simp only [(fibers fiber (by rw [at_]; rfl)).2]
    exact knows
  | retiring fiber =>
    rw [at_] at knows
    simp only [(fibers fiber (by rw [at_]; rfl)).2]
    exact knows
  | outside => trivial
  | polling => trivial
  | running => trivial
  | acquiring => trivial
  | testing => trivial
  | releasing => trivial

end Frame

theorem Bears.congr {fiber : Fin size} (bears : sys.Bears fiber) (fd : next.fibers fiber = sys.fibers fiber)
    (carries : next.carries fiber = sys.carries fiber) : next.Bears fiber :=
  ⟨by rw [carries,fd,bears.carries],by rw [fd]; exact bears.queue⟩

theorem Fits.congr {fiber : Fin size} {place : Place Thread Counter} (fits : sys.Fits fiber place)
    (fd : next.fibers fiber = sys.fibers fiber) (carries : next.carries fiber = sys.carries fiber) :
    next.Fits fiber place := by
  cases place with
  | pool => exact carries.trans fits
  | hand => trivial
  | queue => exact Bears.congr fits fd carries
  | host => exact Bears.congr fits fd carries
  | waiting => exact Bears.congr fits fd carries

/-- What is left to show of a step besides what the other threads rely on. -/
structure Mine (sys next : Sys size Thread Counter Work) (thread : Thread) : Prop where
  holding : ∀ count, next.holds thread = some count →
    (next.counters count).lock = true ∧ ∀ other, other ≠ thread → sys.holds other ≠ some count
  scheduling : ∀ count, (next.threads thread).schedules = some count →
    ∀ other, other ≠ thread → (sys.threads other).schedules ≠ some count
  known : ∀ count, (next.threads thread).counter = some count → (next.batches count).isSome
  knows : next.Knows thread

theorem Frame.sound (frame : Frame sys next thread) (mine : Mine sys next thread) (sound : sys.Sound)
    (tidy : Tidy next.contents)
    (settled : ∀ count batch, next.batches count = some batch → next.Settled count batch)
    (carried : ∀ fiber count, next.carries fiber = some count → (next.batches count).isSome)
    (fits : ∀ fiber place, fiber ∈ next.contents place → next.Fits fiber place) : next.Sound where
  tidy := tidy
  mutex := unshared_step (fun _ => frame.holds) (fun count held => (mine.holding count held).2) sound.mutex
  locked one count held := by
    by_cases here : one = thread
    · subst here
      exact (mine.holding count held).1
    · rw [frame.holds here] at held
      rw [(frame.counters one here count held).1]
      exact sound.locked one count held
  sole := unshared_step (fun other different => by rw [frame.others other different]) mine.scheduling sound.sole
  known one count named := by
    by_cases here : one = thread
    · subst here
      exact mine.known count named
    · rw [frame.others one here] at named
      exact frame.known count (sound.known one count named)
  knows one := by
    by_cases here : one = thread
    · subst here
      exact mine.knows
    · exact frame.knows here (sound.knows one)
  settled := settled
  carried := carried
  fits := fits

theorem Sound.hand_alone (sound : sys.Sound) {fiber : Fin size} {place : Place Thread Counter}
    (held : (sys.threads thread).hand = some fiber) (there : fiber ∈ sys.contents place) : place = .hand thread := by
  refine sound.tidy.once fiber _ _ there ?_
  change fiber ∈ ((sys.threads thread).hand).toList
  rw [held]
  exact List.mem_singleton_self fiber

theorem Sound.queue_room (sound : sys.Sound) {fiber : Fin size} {place : Place Thread Counter} {queue : RunQueue}
    (there : fiber ∈ sys.contents place) (elsewhere : place ≠ .queue queue) : (sys.queues queue).length < size := by
  have absent : fiber ∉ sys.queues queue := by
    intro queued
    exact elsewhere (sound.tidy.once fiber _ (.queue queue) there queued)
  have all := (List.nodup_cons.mpr ⟨absent,sound.tidy.nodup (.queue queue)⟩).length_le_card
  rwa [Fintype.card_fin] at all

theorem Sound.fits_moved (sound : sys.Sound) {fiber : Fin size} {source : Place Thread Counter}
    {target : Option (Place Thread Counter)} (transfer : Transfer sys.contents next.contents fiber source target)
    (fibers : ∀ other, other ≠ fiber → next.fibers other = sys.fibers other)
    (carries : ∀ other, other ≠ fiber → next.carries other = sys.carries other)
    (fits : ∀ place, target = some place → next.Fits fiber place) (other : Fin size) (place : Place Thread Counter)
    (found : other ∈ next.contents place) : next.Fits other place := by
  rcases transfer.found sound.tidy found with ⟨rfl,goal⟩ | ⟨different,found⟩
  · exact fits place goal
  · exact Fits.congr (sound.fits other place found) (fibers other different) (carries other different)

/-- A step that leaves the counters as they are, their locks apart, with the jobs that are carried. -/
structure Quiet (sys next : Sys size Thread Counter Work) (thread : Thread) : Prop where
  others : ∀ other, other ≠ thread → next.threads other = sys.threads other
  counters : ∀ count, (next.counters count).counter = (sys.counters count).counter ∧
    (next.counters count).waiters = (sys.counters count).waiters
  locks : ∀ other, other ≠ thread → ∀ count, sys.holds other = some count →
    (next.counters count).lock = (sys.counters count).lock
  batches : next.batches = sys.batches
  carries : next.carries = sys.carries
  wakes : ∀ count, (sys.threads thread).wakes = some count → (next.threads thread).wakes = some count ∨
    ∀ batch, sys.batches count = some batch → (sys.counters count).counter = 0 →
      batch.woken = (sys.counters count).waiters

namespace Quiet

theorem settled (quiet : Quiet sys next thread) (sound : sys.Sound) (count : Counter) (batch : Batch size)
    (set : next.batches count = some batch) : next.Settled count batch := by
  rw [quiet.batches] at set
  have settled := sound.settled count batch set
  obtain ⟨counter,waiters⟩ := quiet.counters count
  refine ⟨?_,?_,?_,?_⟩
  · rw [counter,settled.counted,live,live,quiet.carries]
  · rw [counter]
    exact settled.asleep
  · rw [counter,waiters]
    intro zero
    rcases settled.awake zero with all | ⟨other,wakes⟩
    · exact .inl all
    · by_cases here : other = thread
      · subst here
        rcases quiet.wakes count wakes with still | ended
        · exact .inr ⟨other,still⟩
        · exact .inl (ended batch set zero)
      · exact .inr ⟨other,by rw [quiet.others other here]; exact wakes⟩
  · rw [waiters]
    exact settled.distinct

theorem frame (quiet : Quiet sys next thread) (fibers : ∀ other, other ≠ thread → ∀ fiber,
    (sys.threads other).hand = some fiber → next.fibers fiber = sys.fibers fiber) : Frame sys next thread where
  others := quiet.others
  fibers other different fiber held := ⟨fibers other different fiber held,by rw [quiet.carries]⟩
  counters other different count held := by
    obtain ⟨counter,waiters⟩ := quiet.counters count
    have lock := quiet.locks other different count held
    refine ⟨?_,by rw [quiet.batches]⟩
    cases next_eq : next.counters count
    cases sys_eq : sys.counters count
    simp_all
  missing other different count scheduling := by rw [quiet.batches]
  known count set := by rwa [quiet.batches]

theorem sound (quiet : Quiet sys next thread) (mine : Mine sys next thread) (sound : sys.Sound)
    (fibers : next.fibers = sys.fibers) (contents : next.contents = sys.contents) : next.Sound := by
  refine (quiet.frame fun _ _ _ _ => by rw [fibers]).sound mine sound (contents ▸ sound.tidy)
    (quiet.settled sound) ?_ ?_
  · rw [quiet.carries,quiet.batches]
    exact sound.carried
  · intro fiber place found
    rw [contents] at found
    exact Fits.congr (sound.fits fiber place found) (by rw [fibers]) (by rw [quiet.carries])

theorem moved (quiet : Quiet sys next thread) (mine : Mine sys next thread) (sound : sys.Sound) {fiber : Fin size}
    {source : Place Thread Counter} {target : Option (Place Thread Counter)}
    (transfer : Transfer sys.contents next.contents fiber source target)
    (own : ∀ other, other ≠ thread → source ≠ .hand other)
    (fibers : ∀ other, other ≠ fiber → next.fibers other = sys.fibers other)
    (fits : ∀ place, target = some place → next.Fits fiber place) : next.Sound := by
  have present : fiber ∈ sys.contents source := transfer.taken.mem_iff.mpr (List.mem_cons_self ..)
  refine (quiet.frame ?_).sound mine sound (sound.tidy.transfer transfer) (quiet.settled sound) ?_
    (sound.fits_moved transfer fibers (fun _ _ => by rw [quiet.carries]) fits)
  · intro other different held hand
    refine fibers held ?_
    rintro rfl
    exact own other different (sound.hand_alone hand present)
  · rw [quiet.carries,quiet.batches]
    exact sound.carried

end Quiet

end Sys

end CSpock.Fibers
