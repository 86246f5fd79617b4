import CSpock.Library.Chains

/-! The hash table of `uthash.h`, as far as the event table uses it. Its handles are in the
elements that it holds; both are known by the address of the element. A failed allocation ends the process. No table
gets to 2^32 buckets: each has its place in memory. -/
namespace CSpock.Event
open CSpock.Library.Chains

/-- The bytes of a key that `keylen`, an `unsigned`, counts. -/
def utKey (key : List UInt8) : List UInt8 := key.take (key.length % 2^32)

structure UtHashHandles (Element : Type) where
  prev : Element → Option Element
  next : Element → Option Element
  hhPrev : Element → Option Element
  hhNext : Element → Option Element
  key : Element → List UInt8
  hashv : Element → Nat

structure UtHashBucket (Element : Type) where
  hhHead : Option Element
  count : Nat
  expandMult : Nat

structure UtHashTable (Element : Type) where
  buckets : Nat → UtHashBucket Element
  numBuckets : Nat
  log2NumBuckets : Nat
  numItems : Nat
  tail : Element
  idealChainMaxlen : Nat
  nonidealItems : Nat
  ineffExpands : Nat
  noexpand : Bool

/-- The handles, and the head of the table with its `tbl`; an empty table is a null pointer. -/
structure UtHash (Element : Type) where
  handles : UtHashHandles Element
  table : Option (Element × UtHashTable Element)

def hashInitialNumBuckets : Nat := 32

def hashInitialNumBucketsLog2 : Nat := 5

def hashBktCapacityThresh : Nat := 10

def hashToBkt (hashv numBkts : Nat) : Nat := hashv &&& (numBkts - 1)

section Jenkins

def hashJenMix (a b c : UInt32) : UInt32 × UInt32 × UInt32 :=
  let a := (a - b - c) ^^^ (c >>> 13)
  let b := (b - c - a) ^^^ (a <<< 8)
  let c := (c - a - b) ^^^ (b >>> 13)
  let a := (a - b - c) ^^^ (c >>> 12)
  let b := (b - c - a) ^^^ (a <<< 16)
  let c := (c - a - b) ^^^ (b >>> 5)
  let a := (a - b - c) ^^^ (c >>> 3)
  let b := (b - c - a) ^^^ (a <<< 10)
  let c := (c - a - b) ^^^ (b >>> 15)
  (a,b,c)

/-- Four bytes, or what there is of them. -/
def jenWord : List UInt8 → UInt32
  | [] => 0
  | byte::bytes => byte.toUInt32 + (jenWord bytes <<< 8)

/-- The loop, and the switch behind it. Of its last word `hashv` takes no more than three bytes, above the lowest. -/
def hashJenLoop (keylen : Nat) : List UInt8 → UInt32 → UInt32 → UInt32 → UInt32
  | a::b::c::d::e::f::g::h::i::j::k::l::key,hjI,hjJ,hashv =>
    let (hjI,hjJ,hashv) := hashJenMix (hjI + jenWord [a,b,c,d]) (hjJ + jenWord [e,f,g,h]) (hashv + jenWord [i,j,k,l])
    hashJenLoop keylen key hjI hjJ hashv
  | key,hjI,hjJ,hashv =>
    let hashv := hashv + UInt32.ofNat keylen
    (hashJenMix (hjI + jenWord (key.take 4)) (hjJ + jenWord ((key.drop 4).take 4))
      (hashv + (jenWord (key.drop 8) <<< 8))).2.2

/-- `HASH_JEN`, the hash function unless another one is set. -/
def hashJen (key : List UInt8) : UInt32 := hashJenLoop key.length key 0x9e3779b9 0x9e3779b9 0xfeedbeef

end Jenkins

section Macros
variable {Element : Type} [DecidableEq Element]

/-- `HASH_FIND_IN_BKT`, with `out` as its cursor. -/
def hashFindInBkt (handles : UtHashHandles Element) (key : List UInt8) (hashval : Nat) : Nat → Option Element →
    Option (Option Element)
  | _,none => some none
  | 0,some _ => none
  | fuel+1,some out =>
    if handles.hashv out = hashval ∧ handles.key out = key then some (some out)
    else hashFindInBkt handles key hashval fuel (handles.hhNext out)

def hashFind (hashFcn : List UInt8 → UInt32) (fuel : Nat) (hash : UtHash Element) (key : List UInt8) :
    Option (Option Element) :=
  match hash.table with
  | none => some none
  | some (_,tbl) =>
    let hashval := (hashFcn (utKey key)).toNat
    hashFindInBkt hash.handles (utKey key) hashval fuel (tbl.buckets (hashToBkt hashval tbl.numBuckets)).hhHead

namespace UtHashHandles

def setKey (handles : UtHashHandles Element) (key : List UInt8) (hashv : Nat) (add : Element) : UtHashHandles Element :=
  { handles with
    hashv := Function.update handles.hashv add hashv
    key := Function.update handles.key add key }

/-- The first element, with none on either side. -/
def makeList (handles : UtHashHandles Element) (add : Element) : UtHashHandles Element :=
  { handles with
    next := Function.update handles.next add none
    prev := Function.update handles.prev add none }

/-- `HASH_APPEND_LIST`, but for the `tail` of the table. -/
def appendList (handles : UtHashHandles Element) (tail add : Element) : UtHashHandles Element :=
  { handles with
    next := Function.update (Function.update handles.next add none) tail (some add)
    prev := Function.update handles.prev add (some tail) }

/-- A handle comes to the front of a bucket that begins with `hhHead`. -/
def linkBkt (handles : UtHashHandles Element) (hhHead : Option Element) (add : Element) :
    UtHashHandles Element :=
  let hhPrev := Function.update handles.hhPrev add none
  { handles with
    hhNext := Function.update handles.hhNext add hhHead
    hhPrev := match hhHead with
      | some first => Function.update hhPrev first (some add)
      | none => hhPrev }

end UtHashHandles

/-- What the loops of `HASH_EXPAND_BUCKETS` change. -/
structure Expansion (Element : Type) where
  handles : UtHashHandles Element
  newBuckets : Nat → UtHashBucket Element
  nonidealItems : Nat

def Expansion.move (idealChainMaxlen numBkts : Nat) (expansion : Expansion Element) (thh : Element) : Expansion Element :=
  let bkt := hashToBkt (expansion.handles.hashv thh) numBkts
  let newbkt := expansion.newBuckets bkt
  let count := newbkt.count + 1
  let nonideal := idealChainMaxlen < count
  let expandMult := if nonideal ∧ newbkt.expandMult * idealChainMaxlen < count then newbkt.expandMult + 1 else newbkt.expandMult
  { handles := expansion.handles.linkBkt newbkt.hhHead thh
    newBuckets := Function.update expansion.newBuckets bkt ⟨some thh,count,expandMult⟩
    nonidealItems := if nonideal then expansion.nonidealItems + 1 else expansion.nonidealItems }

/-- The inner loop; the link onward is read before the handle is moved. -/
def Expansion.moveChain (idealChainMaxlen numBkts : Nat) : Nat → Option Element → Expansion Element → Option (Expansion Element)
  | _,none,expansion => some expansion
  | 0,some _,_ => none
  | fuel+1,some thh,expansion =>
    let hhNxt := expansion.handles.hhNext thh
    moveChain idealChainMaxlen numBkts fuel hhNxt (expansion.move idealChainMaxlen numBkts thh)

/-- The outer loop, for the buckets that are left from `bktI` on. -/
def Expansion.moveBuckets (buckets : Nat → UtHashBucket Element) (idealChainMaxlen numBkts fuel : Nat) : Nat → Nat →
    Expansion Element → Option (Expansion Element)
  | 0,_,expansion => some expansion
  | left+1,bktI,expansion => do
    let expansion ← expansion.moveChain idealChainMaxlen numBkts fuel (buckets bktI).hhHead
    moveBuckets buckets idealChainMaxlen numBkts fuel left (bktI + 1) expansion

/-- `ideal_chain_maxlen` for the doubled number of buckets. -/
def UtHashTable.idealChain (tbl : UtHashTable Element) : Nat :=
  (tbl.numItems >>> (tbl.log2NumBuckets + 1)) + if tbl.numItems &&& (tbl.numBuckets * 2 - 1) ≠ 0 then 1 else 0

def UtHashTable.expanded (tbl : UtHashTable Element) (expansion : Expansion Element) : UtHashTable Element :=
  let ineffExpands := if tbl.numItems >>> 1 < expansion.nonidealItems then tbl.ineffExpands + 1 else 0
  { tbl with
    buckets := expansion.newBuckets
    numBuckets := tbl.numBuckets * 2
    log2NumBuckets := tbl.log2NumBuckets + 1
    idealChainMaxlen := tbl.idealChain
    nonidealItems := expansion.nonidealItems
    ineffExpands := ineffExpands
    noexpand := if 1 < ineffExpands then true else tbl.noexpand }

def hashExpandBuckets (fuel : Nat) (handles : UtHashHandles Element) (tbl : UtHashTable Element) :
    Option (UtHashHandles Element × UtHashTable Element) := do
  let expansion : Expansion Element := ⟨handles,fun _ => ⟨none,0,0⟩,0⟩
  let expansion ← expansion.moveBuckets tbl.buckets tbl.idealChain (tbl.numBuckets * 2) fuel tbl.numBuckets 0
  return (expansion.handles,tbl.expanded expansion)

def UtHashTable.put (tbl : UtHashTable Element) (bkt : Nat) (add : Element) : UtHashTable Element :=
  { tbl with
    numItems := tbl.numItems + 1
    buckets := Function.update tbl.buckets bkt ⟨some add,(tbl.buckets bkt).count + 1,(tbl.buckets bkt).expandMult⟩ }

/-- `HASH_ADD_TO_TABLE`, with `HASH_ADD_TO_BKT`. -/
def hashAddToTable (fuel : Nat) (handles : UtHashHandles Element) (tbl : UtHashTable Element) (add : Element) :
    Option (UtHashHandles Element × UtHashTable Element) :=
  let bkt := hashToBkt (handles.hashv add) tbl.numBuckets
  let handles := handles.linkBkt (tbl.buckets bkt).hhHead add
  let tbl := tbl.put bkt add
  let head := tbl.buckets bkt
  if (head.expandMult + 1) * hashBktCapacityThresh ≤ head.count ∧ tbl.noexpand = false then
    hashExpandBuckets fuel handles tbl
  else some (handles,tbl)

def hashMakeTable (head : Element) : UtHashTable Element where
  buckets _ := ⟨none,0,0⟩
  numBuckets := hashInitialNumBuckets
  log2NumBuckets := hashInitialNumBucketsLog2
  numItems := 0
  tail := head
  idealChainMaxlen := 0
  nonidealItems := 0
  ineffExpands := 0
  noexpand := false

def hashAddKeyptr (hashFcn : List UInt8 → UInt32) (fuel : Nat) (hash : UtHash Element) (key : List UInt8) (add : Element) :
    Option (UtHash Element) := do
  let handles := hash.handles.setKey (utKey key) (hashFcn (utKey key)).toNat add
  match hash.table with
  | none =>
    let (handles,tbl) ← hashAddToTable fuel (handles.makeList add) (hashMakeTable add) add
    return ⟨handles,some (add,tbl)⟩
  | some (head,tbl) =>
    let (handles,tbl) ← hashAddToTable fuel (handles.appendList tbl.tail add) { tbl with tail := add } add
    return ⟨handles,some (head,tbl)⟩

def hashClear (hash : UtHash Element) : UtHash Element := { hash with table := none }

end Macros

end CSpock.Event
