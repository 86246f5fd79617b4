import CSpock.Library.Rounds
import CSpock.Metadata.Codec

/-! The loops of `walk_metadata` and of `count_metatags` by their rounds. -/
namespace CSpock.Metadata
open CSpock.Library.Cursor CSpock.Library.Rounds CSpock.Numeric CSpock.Varnum

structure MetadataWalk where
  source : List UInt8
  maxLen : Nat
  total : Int

def walkRound (walk : MetadataWalk) : Option (Int ⊕ MetadataWalk) :=
  match decByte walk.source with
  | .ok index source =>
    if index = 0xFF then some (.inl (cInt (walk.total + 1))) else do
      let total := cInt (walk.total + 1)
      let maxLen := sizeSub walk.maxLen 1
      let ret ← walkVarint source maxLen
      if ret < 0 then some (.inl ret) else
        let maxLen := sizeSub maxLen ret
        let total := cInt (total + ret)
        match decVarint source with
        | .ok type source => do
          let step ← walkers.value (metaShape type) source maxLen
          match step with
          | .refused ret => some (.inl ret)
          | .passed taken size =>
            let source := source.drop taken.toNat
            let maxLen := sizeSub maxLen taken
            let total := cInt (total + taken)
            if maxLen ≤ sizeT size then some (.inl (-1)) else
              some (.inr ⟨source.drop size.toNat,sizeSub maxLen size,cInt (total + size)⟩)
        | _ => none
  | _ => none

theorem metadataLoop_rounds (rounds : Nat) (source : List UInt8) (maxLen : Nat) (total : Int) :
    walkers.metadataLoop rounds source maxLen total = loop walkRound rounds ⟨source,maxLen,total⟩ := by
  induction rounds generalizing source maxLen total with
  | zero => rfl
  | succ rounds ih =>
    rw [Walkers.metadataLoop,loop,walkRound]
    simp only [walkers]
    cases decByte source with
    | ok index rest =>
      by_cases closed : index = 0xFF
      · simp [closed]
      · simp only [if_neg closed]
        cases walkVarint rest (sizeSub maxLen 1) with
        | none => rfl
        | some ret =>
          by_cases refused : ret < 0
          · simp [refused]
          · simp only [Option.bind_eq_bind,Option.bind_some,if_neg refused]
            cases decVarint rest with
            | ok type source =>
              cases switched : walkers.value (metaShape type) source (sizeSub (sizeSub maxLen 1) ret) with
              | none => simp [switched]
              | some step =>
                cases step with
                | refused ret => simp [switched]
                | passed taken size =>
                  simp only [switched,Option.bind_some,ih]
                  split
                  next => rfl
                  next => rfl
            | _ => rfl
    | _ => rfl

structure MetatagCount where
  pos : Nat
  count : Nat

def countRound (buffer : List UInt8) (tally : MetatagCount) : Option (Nat ⊕ MetatagCount) := do
  let index ← buffer[tally.pos]?
  if index = 0xFF then some (.inl tally.count) else
    match decVarint (buffer.drop (tally.pos+1)) with
    | .ok type source =>
      if metaShape type = .unknown then some (.inl 0) else do
        let pos ← countValue (metaShape type) buffer (buffer.length - source.length)
        some (.inr ⟨pos,tally.count+1⟩)
    | _ => none

theorem countMetatagsLoop_rounds (rounds : Nat) (buffer : List UInt8) (pos count : Nat) :
    countMetatagsLoop rounds buffer pos count = loop (countRound buffer) rounds ⟨pos,count⟩ := by
  induction rounds generalizing pos count with
  | zero => rfl
  | succ rounds ih =>
    rw [countMetatagsLoop,loop,countRound]
    cases buffer[pos]? with
    | none => rfl
    | some index =>
      by_cases closed : index = 0xFF
      · simp [closed]
      · simp only [Option.bind_eq_bind,Option.bind_some,if_neg closed]
        cases decVarint (buffer.drop (pos+1)) with
        | ok type source =>
          by_cases unknown : metaShape type = .unknown
          · simp [unknown]
          · simp only [if_neg unknown]
            cases counted : countValue (metaShape type) buffer (buffer.length - source.length) with
            | none => simp
            | some pos => simp [ih]
        | _ => rfl

theorem countRound_tag (front : List UInt8) {index : UInt8} {type source : List UInt8} {size : Nat} (live : index ≠ 0xFF)
    (number : Varint type) (known : metaShape (varintValue type) ≠ .unknown)
    (value : ∀ front : List UInt8,
      countValue (metaShape (varintValue type)) (front ++ source) front.length = some (front.length + size))
    (count : Nat) : countRound (front ++ index::(type ++ source)) ⟨front.length,count⟩ =
      some (.inr ⟨front.length + (1 + type.length + size),count+1⟩) := by
  have stepped := value (front ++ index::type)
  simp only [List.append_assoc,List.cons_append,List.length_append,List.length_cons] at stepped
  have here : (front ++ index::(type ++ source))[front.length]? = some index := by simp
  have behind : (front ++ index::(type ++ source)).drop (front.length+1) = type ++ source := by
    rw [← List.drop_drop,List.drop_left]
    rfl
  have place : (front ++ index::(type ++ source)).length - source.length = front.length + (type.length + 1) := by
    simp only [List.length_append,List.length_cons]
    omega
  simp only [countRound,here,Option.bind_eq_bind,Option.bind_some,if_neg live,behind,decVarint_varint number source,
    if_neg known,place,stepped]
  congr 3
  omega

end CSpock.Metadata
