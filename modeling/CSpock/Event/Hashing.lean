import CSpock.Event.Uthash

/-! The hash table holds what was added to it, in whatever buckets, and finds it. -/
namespace CSpock.Event
open CSpock.Library.Chains

set_option linter.unusedSectionVars false

section Buckets
variable {Element : Type} {handles handles' : UtHashHandles Element} {buckets : Nat → UtHashBucket Element}
  {members more items : List Element} {numBkts : Nat}

theorem hashToBkt_lt (some_room : 0 < numBkts) (hashv : Nat) : hashToBkt hashv numBkts < numBkts :=
  lt_of_le_of_lt Nat.and_le_right (Nat.sub_lt some_room Nat.one_pos)

structure InBucket (handles : UtHashHandles Element) (numBkts : Nat) (bucket : UtHashBucket Element) (bkt : Nat)
    (members chain : List Element) : Prop where
  linked : Chain handles.hhPrev handles.hhNext none bucket.hhHead chain
  count : bucket.count = chain.length
  nodup : chain.Nodup
  mem : ∀ one, one ∈ chain ↔ one ∈ members ∧ hashToBkt (handles.hashv one) numBkts = bkt

def Bucketed (handles : UtHashHandles Element) (numBkts : Nat) (buckets : Nat → UtHashBucket Element)
    (members : List Element) : Prop :=
  ∀ bkt, bkt < numBkts → ∃ chain, InBucket handles numBkts (buckets bkt) bkt members chain

theorem bucketed_nil (handles : UtHashHandles Element) (numBkts mult : Nat) :
    Bucketed handles numBkts (fun _ => ⟨none,0,mult⟩) [] :=
  fun _ _ => ⟨[],rfl,rfl,List.nodup_nil,fun one => by simp⟩

theorem Bucketed.congr (bucketed : Bucketed handles numBkts buckets members) (same : ∀ one, one ∈ members ↔ one ∈ more)
    (hhPrev : ∀ one ∈ members, handles'.hhPrev one = handles.hhPrev one)
    (hhNext : ∀ one ∈ members, handles'.hhNext one = handles.hhNext one)
    (hashv : ∀ one ∈ members, handles'.hashv one = handles.hashv one) : Bucketed handles' numBkts buckets more := by
  intro bkt less
  obtain ⟨chain,linked,count,nodup,mem⟩ := bucketed bkt less
  refine ⟨chain,linked.congr (fun one there => ?_) fun one there => ?_,count,nodup,fun one => ?_⟩
  · exact hhPrev one ((mem one).mp there).1
  · exact hhNext one ((mem one).mp there).1
  · rw [mem one,← same one]
    exact and_congr_right fun there => by rw [hashv one there]

theorem Bucketed.first (bucketed : Bucketed handles numBkts buckets members) {bkt : Nat} (less : bkt < numBkts) {one : Element}
    (here : (buckets bkt).hhHead = some one) : one ∈ members ∧ hashToBkt (handles.hashv one) numBkts = bkt := by
  obtain ⟨chain,linked,_,_,mem⟩ := bucketed bkt less
  have head := linked.head
  rw [here] at head
  exact (mem one).mp (List.mem_of_head? head.symm)

/-- Only the links within the buckets have been changed, and those of the other elements not even there. -/
structure Relinked (handles handles' : UtHashHandles Element) (moved : List Element) : Prop where
  prev : handles'.prev = handles.prev
  next : handles'.next = handles.next
  key : handles'.key = handles.key
  hashv : handles'.hashv = handles.hashv
  hhPrev : ∀ one, one ∉ moved → handles'.hhPrev one = handles.hhPrev one
  hhNext : ∀ one, one ∉ moved → handles'.hhNext one = handles.hhNext one

theorem Relinked.refl (handles : UtHashHandles Element) (moved : List Element) : Relinked handles handles moved :=
  ⟨rfl,rfl,rfl,rfl,fun _ _ => rfl,fun _ _ => rfl⟩

theorem Relinked.mono (relinked : Relinked handles handles' members) (part : ∀ one ∈ members, one ∈ more) :
    Relinked handles handles' more :=
  { relinked with
    hhPrev := fun one away => relinked.hhPrev one fun there => away (part one there)
    hhNext := fun one away => relinked.hhNext one fun there => away (part one there) }

theorem Relinked.trans {handles'' : UtHashHandles Element} (relinked : Relinked handles handles' members)
    (later : Relinked handles' handles'' members) : Relinked handles handles'' members where
  prev := later.prev.trans relinked.prev
  next := later.next.trans relinked.next
  key := later.key.trans relinked.key
  hashv := later.hashv.trans relinked.hashv
  hhPrev one away := (later.hhPrev one away).trans (relinked.hhPrev one away)
  hhNext one away := (later.hhNext one away).trans (relinked.hhNext one away)

variable [DecidableEq Element]

@[simp] theorem linkBkt_hhNext (hhHead : Option Element) (add : Element) :
    (handles.linkBkt hhHead add).hhNext = Function.update handles.hhNext add hhHead := rfl

@[simp] theorem linkBkt_hashv (hhHead : Option Element) (add : Element) : (handles.linkBkt hhHead add).hashv = handles.hashv :=
  rfl

@[simp] theorem linkBkt_key (hhHead : Option Element) (add : Element) : (handles.linkBkt hhHead add).key = handles.key := rfl

@[simp] theorem linkBkt_prev (hhHead : Option Element) (add : Element) : (handles.linkBkt hhHead add).prev = handles.prev := rfl

@[simp] theorem linkBkt_next (hhHead : Option Element) (add : Element) : (handles.linkBkt hhHead add).next = handles.next := rfl

theorem linkBkt_hhPrev (hhHead : Option Element) (add one : Element) : (handles.linkBkt hhHead add).hhPrev one =
    if hhHead = some one then some add else if one = add then none else handles.hhPrev one := by
  cases hhHead with
  | none => simp [UtHashHandles.linkBkt,Function.update_apply]
  | some first =>
    simp only [UtHashHandles.linkBkt,Function.update_apply,Option.some.injEq]
    by_cases same : one = first
    · rw [if_pos same,if_pos same.symm]
    · rw [if_neg same,if_neg (Ne.symm same)]

/-- One more element comes into the bucket that it belongs to. -/
theorem Bucketed.push (bucketed : Bucketed handles numBkts buckets members) (some_room : 0 < numBkts) {add : Element}
    (fresh : add ∉ members) (expandMult : Nat) :
    let bkt := hashToBkt (handles.hashv add) numBkts
    Bucketed (handles.linkBkt (buckets bkt).hhHead add) numBkts
      (Function.update buckets bkt ⟨some add,(buckets bkt).count + 1,expandMult⟩) (add :: members) := by
  intro bkt other less
  obtain ⟨chain,linked,count,nodup,mem⟩ := bucketed other less
  have away : add ∉ chain := fun there => fresh ((mem add).mp there).1
  have apart : ∀ one ∈ chain, one ≠ add := fun one there same => away (same ▸ there)
  by_cases here : other = bkt
  · subst here
    rw [Function.update_self]
    refine ⟨add :: chain,?_,by rw [List.length_cons,count],List.nodup_cons.mpr ⟨away,nodup⟩,fun one => ?_⟩
    · refine linked.push nodup ?_ (Function.update_self ..) (fun one first => ?_) (fun one there other => ?_) fun one there => ?_
      · have outside : (buckets bkt).hhHead ≠ some add := fun first => fresh (bucketed.first less first).1
        rw [linkBkt_hhPrev,if_neg outside,if_pos rfl]
      · rw [linkBkt_hhPrev,if_pos first]
      · rw [linkBkt_hhPrev,if_neg other,if_neg (apart one there)]
      · exact Function.update_of_ne (apart one there) ..
    · simp only [List.mem_cons,mem,linkBkt_hashv]
      constructor
      · rintro (rfl | ⟨there,same⟩)
        · exact ⟨.inl rfl,rfl⟩
        · exact ⟨.inr there,same⟩
      · rintro ⟨rfl | there,same⟩
        · exact .inl rfl
        · exact .inr ⟨there,same⟩
  · rw [Function.update_of_ne here]
    refine ⟨chain,linked.congr (fun one there => ?_) fun one there => Function.update_of_ne (apart one there) ..,count,nodup,
      fun one => ?_⟩
    · have outside : (buckets bkt).hhHead ≠ some one := fun first =>
        here (((mem one).mp there).2.symm.trans (bucketed.first (hashToBkt_lt some_room _) first).2)
      rw [linkBkt_hhPrev,if_neg outside,if_neg (apart one there)]
    · simp only [List.mem_cons,mem,linkBkt_hashv]
      constructor
      · exact fun ⟨there,same⟩ => ⟨.inr there,same⟩
      · rintro ⟨rfl | there,same⟩
        · exact absurd same.symm here
        · exact ⟨there,same⟩

theorem Bucketed.relinked (bucketed : Bucketed handles numBkts buckets members) (some_room : 0 < numBkts) (add : Element) :
    Relinked handles (handles.linkBkt (buckets (hashToBkt (handles.hashv add) numBkts)).hhHead add) (add :: members) := by
  refine ⟨rfl,rfl,rfl,rfl,fun one away => ?_,fun one away => ?_⟩
  · rw [List.mem_cons,not_or] at away
    have outside : (buckets (hashToBkt (handles.hashv add) numBkts)).hhHead ≠ some one := fun first =>
      away.2 (bucketed.first (hashToBkt_lt some_room _) first).1
    rw [linkBkt_hhPrev,if_neg outside,if_neg away.1]
  · exact Function.update_of_ne (fun (same : one = add) => away (same ▸ List.mem_cons_self ..)) ..

section Expand
variable {ideal : Nat} {expansion : Expansion Element}

theorem moveChain_bucketed {chain : List Element} {before start : Option Element}
    (linked : Chain expansion.handles.hhPrev expansion.handles.hhNext before start chain)
    (bucketed : Bucketed expansion.handles numBkts expansion.newBuckets members) (some_room : 0 < numBkts) (nodup : chain.Nodup)
    (apart : ∀ one ∈ chain, one ∉ members) {fuel : Nat} (enough : chain.length ≤ fuel) :
    ∃ expansion', expansion.moveChain ideal numBkts fuel start = some expansion' ∧
      Bucketed expansion'.handles numBkts expansion'.newBuckets (chain.reverse ++ members) ∧
      Relinked expansion.handles expansion'.handles (chain.reverse ++ members) := by
  induction chain generalizing expansion before start members fuel with
  | nil =>
    obtain rfl := linked
    exact ⟨expansion,by rw [Expansion.moveChain],bucketed,.refl ..⟩
  | cons thh chain ih =>
    obtain ⟨rfl,_,rest⟩ := linked
    obtain ⟨fuel,rfl⟩ := Nat.exists_eq_succ_of_ne_zero (Nat.ne_zero_of_lt enough)
    obtain ⟨outside,nodup⟩ := List.nodup_cons.mp nodup
    have fresh := apart thh (List.mem_cons_self ..)
    have pushed := bucketed.push some_room fresh
    have relinked := bucketed.relinked some_room thh
    have unmoved : ∀ one ∈ chain, one ∉ thh :: members := fun one there here =>
      (List.mem_cons.mp here).elim (fun same => outside (same ▸ there)) (apart one (List.mem_cons_of_mem _ there))
    obtain ⟨expansion',ran,bucketed',relinked'⟩ := @ih (thh :: members) (expansion.move ideal numBkts thh) _ _
      (rest.congr (fun one there => relinked.hhPrev one (unmoved one there)) fun one there =>
        relinked.hhNext one (unmoved one there)) (pushed _) nodup unmoved fuel (Nat.le_of_succ_le_succ enough)
    refine ⟨expansion',ran,?_,?_⟩
    · simpa using bucketed'
    · rw [List.reverse_cons,List.append_assoc]
      exact (relinked.mono fun one there => List.mem_append_right chain.reverse there).trans relinked'

theorem moveBuckets_bucketed {old : Nat → UtHashBucket Element} {oldBkts left bktI fuel : Nat}
    (held : Bucketed handles oldBkts old members) (all : bktI + left = oldBkts) (some_old : 0 < oldBkts)
    (some_room : 0 < numBkts) (enough : members.length ≤ fuel)
    (bucketed : Bucketed expansion.handles numBkts expansion.newBuckets more) (relinked : Relinked handles expansion.handles more)
    (moved : ∀ one, one ∈ more ↔ one ∈ members ∧ hashToBkt (handles.hashv one) oldBkts < bktI) :
    ∃ expansion', expansion.moveBuckets old ideal numBkts fuel left bktI = some expansion' ∧
      Bucketed expansion'.handles numBkts expansion'.newBuckets members ∧
      Relinked handles expansion'.handles members := by
  induction left generalizing expansion more bktI with
  | zero =>
    obtain rfl : bktI = oldBkts := all
    have same : ∀ one, one ∈ more ↔ one ∈ members := fun one => by
      rw [moved one]
      exact and_iff_left_of_imp fun _ => hashToBkt_lt some_old _
    exact ⟨expansion,rfl,bucketed.congr same (fun _ _ => rfl) (fun _ _ => rfl) fun _ _ => rfl,
      relinked.mono fun one => (same one).mp⟩
  | succ left ih =>
    obtain ⟨chain,linked,_,nodup,mem⟩ := held bktI (by omega)
    have unmoved : ∀ one ∈ chain, one ∉ more := fun one there here => by
      have less := ((moved one).mp here).2
      rw [((mem one).mp there).2] at less
      exact absurd less (lt_irrefl _)
    have short : chain.length ≤ fuel := by
      have part : chain ⊆ members := fun one there => ((mem one).mp there).1
      exact (nodup.subperm part).length_le.trans enough
    obtain ⟨expansion',ran,bucketed',relinked'⟩ := @moveChain_bucketed _ more numBkts _ ideal expansion chain none _
      (linked.congr (fun one there => relinked.hhPrev one (unmoved one there)) fun one there =>
        relinked.hhNext one (unmoved one there)) bucketed some_room nodup unmoved fuel short
    have done : ∀ one, one ∈ chain.reverse ++ more ↔ one ∈ members ∧ hashToBkt (handles.hashv one) oldBkts < bktI + 1 := by
      intro one
      rw [List.mem_append,List.mem_reverse,mem one,moved one,Nat.lt_succ_iff_lt_or_eq]
      tauto
    obtain ⟨expansion'',ran',bucketed'',relinked''⟩ := ih (show bktI + 1 + left = oldBkts by omega) bucketed'
      ((relinked.mono fun one there => List.mem_append_right _ there).trans relinked') done
    exact ⟨expansion'',by simp only [Expansion.moveBuckets,ran,Option.bind_eq_bind,Option.bind_some,ran'],bucketed'',relinked''⟩

/-- However the buckets are doubled, they hold the same elements. -/
theorem hashExpandBuckets_bucketed {tbl : UtHashTable Element} {fuel : Nat}
    (bucketed : Bucketed handles tbl.numBuckets tbl.buckets members) (some_room : 0 < tbl.numBuckets)
    (enough : members.length ≤ fuel) :
    ∃ handles' tbl', hashExpandBuckets fuel handles tbl = some (handles',tbl') ∧
      Bucketed handles' tbl'.numBuckets tbl'.buckets members ∧ Relinked handles handles' members ∧
      tbl'.numItems = tbl.numItems ∧ tbl'.tail = tbl.tail ∧ tbl'.numBuckets = tbl.numBuckets * 2 ∧
      tbl'.log2NumBuckets = tbl.log2NumBuckets + 1 := by
  obtain ⟨expansion,ran,bucketed',relinked⟩ := @moveBuckets_bucketed _ handles members [] (tbl.numBuckets * 2) _ tbl.idealChain ⟨handles,fun _ => ⟨none,0,0⟩,0⟩ tbl.buckets tbl.numBuckets tbl.numBuckets 0 fuel bucketed (Nat.zero_add _) some_room
    (by omega) enough (bucketed_nil handles _ 0) (.refl ..) fun one => by simp
  refine ⟨expansion.handles,tbl.expanded expansion,?_,bucketed',relinked,rfl,rfl,rfl,rfl⟩
  simp only [hashExpandBuckets,ran,Option.bind_eq_bind,Option.bind_some,Option.pure_def]

end Expand

theorem hashAddToTable_bucketed {tbl : UtHashTable Element} {fuel : Nat} {add : Element}
    (bucketed : Bucketed handles tbl.numBuckets tbl.buckets members) (some_room : 0 < tbl.numBuckets) (fresh : add ∉ members)
    (enough : members.length < fuel) :
    ∃ handles' tbl', hashAddToTable fuel handles tbl add = some (handles',tbl') ∧
      Bucketed handles' tbl'.numBuckets tbl'.buckets (add :: members) ∧ Relinked handles handles' (add :: members) ∧
      tbl'.numItems = tbl.numItems + 1 ∧ tbl'.tail = tbl.tail ∧
      (tbl.numBuckets = 2^tbl.log2NumBuckets → tbl'.numBuckets = 2^tbl'.log2NumBuckets) := by
  have pushed : Bucketed _ _ (tbl.put _ add).buckets _ := bucketed.push some_room fresh _
  have relinked := bucketed.relinked some_room add
  rw [hashAddToTable]
  split
  · obtain ⟨handles',tbl',ran,bucketed',relinked',count,tail,size,log⟩ := @hashExpandBuckets_bucketed _ _ (add :: members) _
      (tbl.put (hashToBkt (handles.hashv add) tbl.numBuckets) add) fuel pushed some_room
      (show (add :: members).length ≤ fuel by rw [List.length_cons]; omega)
    refine ⟨handles',tbl',ran,bucketed',relinked.trans relinked',count,tail,fun power => ?_⟩
    rw [size,log,Nat.pow_succ]
    exact congrArg (· * 2) power
  · exact ⟨_,_,rfl,pushed,relinked,rfl,rfl,id⟩

structure TableHolds (hashFcn : List UInt8 → UInt32) (handles : UtHashHandles Element) (head : Element)
    (tbl : UtHashTable Element) (items : List Element) : Prop where
  order : Chain handles.prev handles.next none (some head) items
  nodup : items.Nodup
  tail : items.getLast? = some tbl.tail
  count : tbl.numItems = items.length
  size : tbl.numBuckets = 2^tbl.log2NumBuckets
  hashed : ∀ one ∈ items, handles.hashv one = (hashFcn (handles.key one)).toNat
  bucketed : Bucketed handles tbl.numBuckets tbl.buckets items

def UtHash.Holds (hashFcn : List UInt8 → UInt32) (hash : UtHash Element) (items : List Element) : Prop :=
  match hash.table with
  | none => items = []
  | some (head,tbl) => TableHolds hashFcn hash.handles head tbl items

variable {hashFcn : List UInt8 → UInt32} {hash : UtHash Element}

theorem hashClear_holds (hashFcn : List UInt8 → UInt32) (hash : UtHash Element) : (hashClear hash).Holds hashFcn [] := rfl

theorem hashAddKeyptr_holds (holds : hash.Holds hashFcn items) (key : List UInt8) {add : Element} (fresh : add ∉ items)
    {fuel : Nat} (enough : items.length < fuel) :
    ∃ after, hashAddKeyptr hashFcn fuel hash key add = some after ∧ after.Holds hashFcn (items ++ [add]) ∧
      after.handles.key = Function.update hash.handles.key add (utKey key) := by
  have apart : ∀ one ∈ items, one ≠ add := fun one there same => fresh (same ▸ there)
  unfold UtHash.Holds at holds
  unfold hashAddKeyptr
  cases table : hash.table with
  | none =>
    simp only [table] at holds ⊢
    subst holds
    obtain ⟨handles,tbl,ran,bucketed,relinked,count,tail,size⟩ := @hashAddToTable_bucketed _
      ((hash.handles.setKey (utKey key) (hashFcn (utKey key)).toNat add).makeList add) [] _ (hashMakeTable add) fuel add
      (bucketed_nil _ _ 0) (show 0 < hashInitialNumBuckets by decide) fresh enough
    refine ⟨⟨handles,some (add,tbl)⟩,?_,⟨?_,List.nodup_singleton _,?_,count,size rfl,?_,bucketed⟩,relinked.key⟩
    · rw [ran]
      rfl
    · rw [relinked.prev,relinked.next]
      exact .single (Function.update_self ..) (Function.update_self ..)
    · rw [tail]
      rfl
    · intro one there
      obtain rfl := List.mem_singleton.mp there
      rw [relinked.hashv,relinked.key]
      simp [UtHashHandles.makeList,UtHashHandles.setKey]
  | some both =>
    obtain ⟨head,tbl⟩ := both
    simp only [table] at holds ⊢
    have last := List.mem_of_getLast? holds.tail
    have some_room : 0 < tbl.numBuckets := by
      rw [holds.size]
      exact Nat.two_pow_pos _
    have bucketed : Bucketed ((hash.handles.setKey (utKey key) (hashFcn (utKey key)).toNat add).appendList tbl.tail add)
        tbl.numBuckets tbl.buckets items :=
      holds.bucketed.congr (fun _ => Iff.rfl) (fun _ _ => rfl) (fun _ _ => rfl)
        fun one there => Function.update_of_ne (apart one there) ..
    obtain ⟨handles,tbl',ran,bucketed,relinked,count,tail,size⟩ := @hashAddToTable_bucketed _ _ items _
      { tbl with tail := add } fuel add bucketed some_room fresh enough
    refine ⟨⟨handles,some (head,tbl')⟩,?_,⟨?_,?_,?_,?_,size holds.size,?_,?_⟩,relinked.key⟩
    · rw [ran]
      rfl
    · rw [relinked.prev,relinked.next]
      refine holds.order.concat holds.nodup holds.tail (Function.update_self ..) ?_ (Function.update_self ..) (fun one there =>
        Function.update_of_ne (apart one there) ..) fun one there other => ?_
      · exact (Function.update_of_ne (apart _ last).symm ..).trans (Function.update_self ..)
      · exact (Function.update_of_ne other ..).trans (Function.update_of_ne (apart one there) ..)
    · exact holds.nodup.append (List.nodup_singleton _) (by simpa using fresh)
    · rw [tail,List.getLast?_concat]
    · rw [count,List.length_append,List.length_singleton]
      exact congrArg (· + 1) holds.count
    · intro one there
      rw [relinked.hashv,relinked.key]
      rcases List.mem_append.mp there with there | there
      · have hashed := holds.hashed one there
        simpa [UtHashHandles.appendList,UtHashHandles.setKey,Function.update_of_ne (apart one there)] using hashed
      · obtain rfl := List.mem_singleton.mp there
        simp [UtHashHandles.appendList,UtHashHandles.setKey]
    · exact bucketed.congr (fun one => by simp [or_comm]) (fun _ _ => rfl) (fun _ _ => rfl) fun _ _ => rfl

theorem hashFindInBkt_chain {key : List UInt8} {hashval fuel : Nat} {before start : Option Element} {chain : List Element}
    (linked : Chain handles.hhPrev handles.hhNext before start chain) (enough : chain.length ≤ fuel) :
    ∃ out, hashFindInBkt handles key hashval fuel start = some out ∧
      match out with
      | some one => one ∈ chain ∧ handles.key one = key
      | none => ∀ one ∈ chain, handles.hashv one = hashval → handles.key one ≠ key := by
  induction chain generalizing before start fuel with
  | nil =>
    obtain rfl := linked
    exact ⟨none,by rw [hashFindInBkt],nofun⟩
  | cons one chain ih =>
    obtain ⟨rfl,_,rest⟩ := linked
    obtain ⟨fuel,rfl⟩ := Nat.exists_eq_succ_of_ne_zero (Nat.ne_zero_of_lt enough)
    rw [hashFindInBkt]
    split
    next found => exact ⟨some one,rfl,List.mem_cons_self ..,found.2⟩
    next other =>
      obtain ⟨out,ran,outcome⟩ := ih rest (Nat.le_of_succ_le_succ enough)
      refine ⟨out,ran,?_⟩
      cases out with
      | some found => exact ⟨List.mem_cons_of_mem _ outcome.1,outcome.2⟩
      | none =>
        intro another there same keyed
        rcases List.mem_cons.mp there with rfl | there
        · exact other ⟨same,keyed⟩
        · exact outcome another there same keyed

/-- The element that is found has the key, and nothing is found only if there is none that has it. -/
theorem hashFind_holds (holds : hash.Holds hashFcn items) (key : List UInt8) {fuel : Nat} (enough : items.length ≤ fuel) :
    ∃ out, hashFind hashFcn fuel hash key = some out ∧
      match out with
      | some one => one ∈ items ∧ hash.handles.key one = utKey key
      | none => ∀ one ∈ items, hash.handles.key one ≠ utKey key := by
  unfold UtHash.Holds at holds
  unfold hashFind
  cases table : hash.table with
  | none =>
    simp only [table] at holds
    subst holds
    exact ⟨none,rfl,nofun⟩
  | some both =>
    obtain ⟨head,tbl⟩ := both
    simp only [table] at holds
    have some_room : 0 < tbl.numBuckets := by
      rw [holds.size]
      exact Nat.two_pow_pos _
    obtain ⟨chain,linked,_,nodup,mem⟩ := holds.bucketed _ (hashToBkt_lt some_room (hashFcn (utKey key)).toNat)
    have part : chain ⊆ items := fun one there => ((mem one).mp there).1
    obtain ⟨out,ran,outcome⟩ := @hashFindInBkt_chain _ hash.handles _ (utKey key) (hashFcn (utKey key)).toNat fuel _ _ _
      linked ((nodup.subperm part).length_le.trans enough)
    refine ⟨out,ran,?_⟩
    cases out with
    | some one => exact ⟨part outcome.1,outcome.2⟩
    | none =>
      intro one there keyed
      have hashed := holds.hashed one there
      rw [keyed] at hashed
      exact outcome one ((mem one).mpr ⟨there,by rw [hashed]⟩) hashed keyed

end Buckets

end CSpock.Event
