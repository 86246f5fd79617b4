import CSpock.Metadata.Contract

/-! Walk then count: the rounds of `count_metatags` against those of `walk_metadata`. -/
namespace CSpock.Metadata
open CSpock.Library.Cursor CSpock.Library.Rounds CSpock.Numeric CSpock.Varnum CSpock.Strings CSpock.Nbt CSpock.Particle

section Values
variable {size : Nat}

/-- A string of a negative length is stepped over by less than its prefix, whatever the bound. -/
theorem walkString_negative {header rest : List UInt8} (number : Varint header) (below : (varintValue header).toInt < 0)
    (stepped : (size : Int) = header.length + (varintValue header).toInt) :
    walkString (header ++ rest) noOverflow = some (size : Int) := by
  have short := number.length_le
  have wide : 5 ≤ noOverflow := by decide
  exact walkString_passes number rest (by omega) (by decide) stepped (by omega)

theorem countValue_walked {shape : MetaShape} {source : List UInt8} (value : WalkedValue true shape source size)
    (small : size ≤ noOverflow) (front : List UInt8) :
    countValue shape (front ++ source) front.length = some (front.length + size) := by
  cases value with
  | alike rest value => exact countValue_value value front rest
  | negative _ number below stepped => exact advance_over (walkString_negative number below stepped) front
  | optNegative _ live number below stepped =>
    exact behindFlag_set live (advance_over (walkString_negative number below stepped)) front
  | nbt rest _ document =>
    have walked := walkNbt_document document rest noOverflow (by decide)
    rw [verdict_of_le small] at walked
    exact advance_over walked front
  | particle rest _ walked => exact advance_over (walked.walked rest (by decide) (by decide)) front

theorem WalkedValue.known {shape : MetaShape} {source : List UInt8} (value : WalkedValue true shape source size) :
    shape ≠ .unknown := by
  rintro rfl
  cases value with
  | alike _ value => cases value

end Values

section Rounds
variable {buffer : List UInt8} {walk after : MetadataWalk} {tally : MetatagCount}

structure Follows (buffer : List UInt8) (walk : MetadataWalk) (tally : MetatagCount) : Prop where
  fits : walk.Fits
  behind : walk.source = buffer.drop tally.pos
  total : walk.total = tally.pos

/-- The counter answers a round over a tag by one over the same bytes. -/
theorem countRound_on (follows : Follows buffer walk tally) (ran : walkRound walk = some (.inr after))
    (runs : ∃ outcome, walkRound after = some outcome) :
    ∃ next, countRound buffer tally = some (.inr next) ∧ Follows buffer after next := by
  obtain ⟨fits,behind,total⟩ := follows
  obtain ⟨index,type,source,size,split,live,number,value,room,rfl⟩ := walkRound_on fits ran runs
  have ⟨_,nonneg,budget⟩ := fits
  have whole : buffer.take tally.pos ++ index::(type ++ source) = buffer := by
    rw [← split,behind,List.take_append_drop]
  have place : (buffer.take tally.pos).length = tally.pos := by
    have more : 0 < (buffer.drop tally.pos).length := by rw [← behind,split]; exact Nat.succ_pos _
    rw [List.length_drop] at more
    rw [List.length_take]
    omega
  have once := countRound_tag (buffer.take tally.pos) live number value.known
    (countValue_walked value (by unfold noOverflow; omega)) tally.count
  rw [whole,place] at once
  refine ⟨_,once,fits.on room _,?_,?_⟩
  · rw [← List.drop_drop,← behind,split,Nat.add_assoc,Nat.add_comm 1,List.drop_succ_cons,List.drop_length_add_append]
  · push_cast
    omega

theorem countRound_counts {next : MetatagCount} (ran : countRound buffer tally = some (.inr next)) :
    next.count = tally.count + 1 := by
  obtain ⟨index,_,ran⟩ := Option.bind_eq_some_iff.mp ran
  split at ran
  next => cases ran
  next =>
    split at ran
    next =>
      split at ran
      next => cases ran
      next =>
        obtain ⟨pos,_,ran⟩ := Option.bind_eq_some_iff.mp ran
        cases ran
        rfl
    next => cases ran

theorem countRounds_count {count : Nat} {start stop : MetatagCount} (turns : Turns (countRound buffer) count start stop) :
    stop.count = start.count + count := by
  induction turns with
  | start => rfl
  | next on _ ih =>
    rw [ih,countRound_counts on]
    omega

/-- The counter comes to the closing byte that the walker accepted, after as many tags. -/
theorem countMetatags_walked {source : List UInt8} {maxLen : Nat} {n : Int} (bound : maxLen ≤ 2^30)
    (walked : walkMetadata source maxLen = some n) (accepted : 0 ≤ n) :
    ∃ tags last pos, Turns walkRound tags ⟨source,maxLen,0⟩ last ∧ walkRound last = some (.inl n) ∧
      Turns (countRound source) tags ⟨0,0⟩ ⟨pos,tags⟩ ∧ source[pos]? = some 0xFF ∧ (pos : Int) = n - 1 ∧
      countMetatags source = some tags := by
  unfold walkMetadata Walkers.metadata at walked
  split at walked
  next => cases walked; contradiction
  next live =>
    rw [metadataLoop_rounds] at walked
    obtain ⟨tags,last,fewer,turns,ends⟩ := loop_ends walked
    have fits : MetadataWalk.Fits ⟨source,maxLen,0⟩ :=
      ⟨by dsimp only; omega,Int.le_refl 0,by dsimp only; omega⟩
    obtain ⟨⟨pos,count⟩,counted,follows⟩ := turns.beside (fun _ _ _ => countRound_on) ⟨_,ends⟩
      (⟨fits,rfl,rfl⟩ : Follows source ⟨source,maxLen,0⟩ ⟨0,0⟩)
    obtain rfl : count = tags := (countRounds_count counted).trans (Nat.zero_add tags)
    obtain ⟨rest,closing,exact⟩ := walkRound_ends follows.fits ends accepted
    have here : source[pos]? = some 0xFF := by
      rw [← Nat.add_zero pos,← List.getElem?_drop,← follows.behind,closing]
      rfl
    have ended : countRound source ⟨pos,count⟩ = some (.inl count) := by simp [countRound,here]
    refine ⟨count,last,pos,turns,ends,counted,here,?_,?_⟩
    · rw [exact,follows.total,Int.add_sub_cancel]
    · rw [countMetatags,countMetatagsLoop_rounds]
      exact counted.loop ended fewer

-- the string of length -4 is stepped over by one byte, and the walk ends inside its prefix
theorem countMetatags_walked_negative : ∃ tags last pos,
    Turns walkRound tags ⟨[0,3,0xFC,0xFF,0xFF,0xFF,0x0F,0xFF],8,0⟩ last ∧ walkRound last = some (.inl 4) ∧
      Turns (countRound [0,3,0xFC,0xFF,0xFF,0xFF,0x0F,0xFF]) tags ⟨0,0⟩ ⟨pos,tags⟩ ∧
      ([0,3,0xFC,0xFF,0xFF,0xFF,0x0F,0xFF] : List UInt8)[pos]? = some 0xFF ∧ (pos : Int) = 4 - 1 ∧
      countMetatags [0,3,0xFC,0xFF,0xFF,0xFF,0x0F,0xFF] = some tags :=
  countMetatags_walked (by decide : 8 ≤ 2^30) (by decide +kernel) (by decide)

end Rounds

end CSpock.Metadata
