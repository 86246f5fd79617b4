import Mathlib

/-! Circular lists that are linked both ways, with one element as their head. -/
namespace CSpock.Library.Circular

structure Links (Ptr : Type) where
  blink : Ptr → Ptr
  flink : Ptr → Ptr

section Lists
variable {Ptr : Type} {links links' : Links Ptr} {head new : Ptr} {items before after : List Ptr}

def Joined (links : Links Ptr) (one two : Ptr) : Prop := links.flink one = two ∧ links.blink two = one

structure Circle (links : Links Ptr) (head : Ptr) (items : List Ptr) : Prop where
  joined : (head :: items ++ [head]).IsChain (Joined links)
  nodup : (head :: items).Nodup

theorem joined_of_ends {path : List Ptr} (chain : path.IsChain (Joined links))
    (flink : ∀ one ∈ path.dropLast, links'.flink one = links.flink one)
    (blink : ∀ two ∈ path.tail, links'.blink two = links.blink two) : path.IsChain (Joined links') := by
  induction path with
  | nil => exact .nil
  | cons one path ih =>
    cases path with
    | nil => exact .singleton _
    | cons two path =>
      obtain ⟨⟨forth,back⟩,rest⟩ := List.isChain_cons_cons.mp chain
      refine List.isChain_cons_cons.mpr ⟨⟨?_,?_⟩,ih rest ?_ fun three later => ?_⟩
      · rw [flink one (List.mem_cons_self ..),forth]
      · rw [blink two (List.mem_cons_self ..),back]
      · exact fun three earlier => flink three (List.mem_cons_of_mem _ earlier)
      · exact blink three (List.mem_cons_of_mem _ later)

theorem Circle.congr (circle : Circle links head items)
    (flink : ∀ one ∈ head :: items, links'.flink one = links.flink one)
    (blink : ∀ one ∈ head :: items, links'.blink one = links.blink one) : Circle links' head items := by
  refine ⟨joined_of_ends circle.joined (fun one earlier => flink one ?_) fun two later => blink two ?_,circle.nodup⟩
  · rwa [List.dropLast_concat] at earlier
  · rw [List.cons_append,List.tail_cons,List.mem_append,List.mem_singleton] at later
    exact later.elim (List.mem_cons_of_mem _) fun last => last ▸ List.mem_cons_self ..

theorem circle_nil : Circle links head [] ↔ links.flink head = head ∧ links.blink head = head := by
  constructor
  · intro circle
    have joined := circle.joined
    simpa [Joined] using joined
  · intro joined
    exact ⟨by simpa [Joined] using joined,List.nodup_singleton _⟩

/-- The one in front of a place in the circle: the head, at the start. -/
def front (head : Ptr) (before : List Ptr) : Ptr := before.getLastD head

/-- The one behind a place in the circle: the head, at the end. -/
def back (head : Ptr) (after : List Ptr) : Ptr := after.headD head

theorem front_split (head : Ptr) (before : List Ptr) :
    (head :: before).dropLast ++ [front head before] = head :: before := by
  rw [front,← List.getLast_eq_getLastD (List.cons_ne_nil head before)]
  exact List.dropLast_concat_getLast _

theorem back_split (head : Ptr) (after : List Ptr) :
    back head after :: (after ++ [head]).tail = after ++ [head] := by
  cases after <;> rfl

theorem around (head : Ptr) (before after : List Ptr) : head :: (before ++ after) ++ [head] =
    (head :: before).dropLast ++ front head before :: back head after :: (after ++ [head]).tail := by
  calc
    head :: (before ++ after) ++ [head] = (head :: before) ++ (after ++ [head]) := by simp
    _ = ((head :: before).dropLast ++ [front head before]) ++ (back head after :: (after ++ [head]).tail) := by
      rw [front_split,back_split]
    _ = _ := by simp

theorem front_mem (head : Ptr) (before : List Ptr) : front head before ∈ head :: before := by
  rw [← front_split head before]
  exact List.mem_append_right _ (List.mem_singleton_self _)

section Places
variable (nodup : (head :: (before ++ after)).Nodup)
include nodup

theorem head_fresh : head ∉ before ∧ head ∉ after := by
  have away := (List.nodup_cons.mp nodup).1
  simpa only [List.mem_append,not_or] using away

theorem front_notin_dropLast : front head before ∉ (head :: before).dropLast := by
  have distinct : (head :: before).Nodup := (List.nodup_append.mp (show (head :: before ++ after).Nodup from nodup)).1
  rw [← front_split head before] at distinct
  exact fun there => (List.nodup_append.mp distinct).2.2 _ there _ (List.mem_singleton_self _) rfl

theorem front_notin_after : front head before ∉ after := by
  intro there
  have distinct := (List.nodup_append.mp (show (head :: before ++ after).Nodup from nodup)).2.2
  exact distinct _ (front_mem head before) _ there rfl

theorem back_notin_before : back head after ∉ before := by
  cases after with
  | nil => exact (head_fresh nodup).1
  | cons one after =>
    intro there
    have distinct := (List.nodup_append.mp (List.nodup_cons.mp nodup).2).2.2
    exact distinct _ there _ (List.mem_cons_self ..) rfl

theorem back_notin_tail : back head after ∉ (after ++ [head]).tail := by
  have apart : (after ++ [head]).Nodup := by
    have rest := (List.nodup_append.mp (List.nodup_cons.mp nodup).2).2.1
    exact rest.append (List.nodup_singleton _) (by simpa using (head_fresh nodup).2)
  rw [← back_split] at apart
  exact (List.nodup_cons.mp apart).1

end Places

/-- The parts of a circle in front of a place and behind it do without the links across. -/
theorem Circle.parts (circle : Circle links head (before ++ after)) :
    (head :: before).IsChain (Joined links) ∧ (after ++ [head]).IsChain (Joined links) ∧
      Joined links (front head before) (back head after) := by
  have joined := circle.joined
  rw [around,List.isChain_split,front_split,List.isChain_cons_cons,back_split] at joined
  exact ⟨joined.1,joined.2.2,joined.2.1⟩

theorem parts_kept (nodup : (head :: (before ++ after)).Nodup) (fresh : new ∉ head :: (before ++ after))
    (first : (head :: before).IsChain (Joined links)) (second : (after ++ [head]).IsChain (Joined links))
    (flink : ∀ one, one ≠ front head before → one ≠ new → links'.flink one = links.flink one)
    (blink : ∀ one, one ≠ back head after → one ≠ new → links'.blink one = links.blink one) :
    (head :: before).IsChain (Joined links') ∧ (after ++ [head]).IsChain (Joined links') := by
  simp only [List.mem_cons,List.mem_append,not_or] at fresh
  obtain ⟨away,early,late⟩ := fresh
  constructor
  · refine joined_of_ends first (fun one earlier => flink one ?_ ?_) fun two later => blink two ?_ ?_
    · exact fun here => front_notin_dropLast nodup (here ▸ earlier)
    · rintro rfl
      exact (List.mem_cons.mp (List.mem_of_mem_dropLast earlier)).elim away early
    · exact fun here => back_notin_before nodup (here ▸ later)
    · rintro rfl
      exact early later
  · refine joined_of_ends second (fun one earlier => flink one ?_ ?_) fun two later => blink two ?_ ?_
    · rw [List.dropLast_concat] at earlier
      exact fun here => front_notin_after nodup (here ▸ earlier)
    · rw [List.dropLast_concat] at earlier
      rintro rfl
      exact late earlier
    · exact fun here => back_notin_tail nodup (here ▸ later)
    · rintro rfl
      rcases List.mem_append.mp (List.mem_of_mem_tail later) with inside | last
      · exact late inside
      · exact away (List.mem_singleton.mp last)

theorem moved (head new : Ptr) (before after : List Ptr) :
    (head :: (before ++ new :: after)).Perm (new :: head :: (before ++ after)) :=
  (List.Perm.cons head List.perm_middle).trans (List.Perm.swap ..)

theorem Circle.insert (circle : Circle links head (before ++ after)) (fresh : new ∉ head :: (before ++ after))
    (forth : links'.flink (front head before) = new) (back' : links'.blink new = front head before)
    (on : links'.flink new = back head after) (from' : links'.blink (back head after) = new)
    (flink : ∀ one, one ≠ front head before → one ≠ new → links'.flink one = links.flink one)
    (blink : ∀ one, one ≠ back head after → one ≠ new → links'.blink one = links.blink one) :
    Circle links' head (before ++ new :: after) := by
  obtain ⟨first,second,_⟩ := circle.parts
  obtain ⟨first',second'⟩ := parts_kept circle.nodup fresh first second flink blink
  refine ⟨?_,(moved ..).nodup_iff.mpr (List.nodup_cons.mpr ⟨fresh,circle.nodup⟩)⟩
  have path : head :: (before ++ new :: after) ++ [head] =
      (head :: before).dropLast ++ front head before :: new :: back head after :: (after ++ [head]).tail := by
    calc
      head :: (before ++ new :: after) ++ [head] = (head :: before) ++ new :: (after ++ [head]) := by simp
      _ = ((head :: before).dropLast ++ [front head before]) ++ new :: back head after :: (after ++ [head]).tail := by
        rw [front_split,back_split]
      _ = _ := by simp
  rw [path,List.isChain_split,front_split,List.isChain_cons_cons,List.isChain_cons_cons,back_split]
  exact ⟨first',⟨forth,back'⟩,⟨on,from'⟩,second'⟩

theorem Circle.remove {gone : Ptr} (circle : Circle links head (before ++ gone :: after))
    (forth : links'.flink (front head before) = back head after)
    (from' : links'.blink (back head after) = front head before)
    (flink : ∀ one, one ≠ front head before → one ≠ gone → links'.flink one = links.flink one)
    (blink : ∀ one, one ≠ back head after → one ≠ gone → links'.blink one = links.blink one) :
    Circle links' head (before ++ after) := by
  obtain ⟨first,second,_⟩ := circle.parts
  obtain ⟨absent,nodup⟩ := List.nodup_cons.mp ((moved ..).nodup_iff.mp circle.nodup)
  obtain ⟨first',second'⟩ := parts_kept nodup absent first second.tail flink blink
  refine ⟨?_,nodup⟩
  rw [around,List.isChain_split,front_split,List.isChain_cons_cons,back_split]
  exact ⟨first',⟨forth,from'⟩,second'⟩

/-- A walk around the circle has got to `pos`, with `items` still to come. -/
structure Onward (links : Links Ptr) (head pos : Ptr) (items : List Ptr) : Prop where
  here : pos = back head items
  joined : (items ++ [head]).IsChain (Joined links)
  inside : head ∉ items

theorem Circle.onward (circle : Circle links head items) : Onward links head (links.flink head) items := by
  have whole : Circle links head ([] ++ items) := circle
  exact ⟨whole.parts.2.2.1,whole.parts.2.1,(List.nodup_cons.mp circle.nodup).1⟩

theorem Onward.nil {pos : Ptr} (onward : Onward links head pos []) : pos = head := onward.here

theorem Onward.cons {pos item : Ptr} (onward : Onward links head pos (item :: items)) :
    pos = item ∧ item ≠ head ∧ Onward links head (links.flink item) items := by
  obtain ⟨here,joined,inside⟩ := onward
  rw [List.mem_cons,not_or] at inside
  refine ⟨here,Ne.symm inside.1,?_,joined.tail,inside.2⟩
  cases items with
  | nil => exact (List.isChain_cons_cons.mp joined).1.1
  | cons next items => exact (List.isChain_cons_cons.mp joined).1.1

end Lists

end CSpock.Library.Circular
