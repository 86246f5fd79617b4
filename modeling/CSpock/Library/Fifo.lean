import Mathlib

/-! Queues of items, first in first out. -/
namespace CSpock.Library.Fifo

variable {Item : Type}

/-- The first items, as many as are asked for, and what is left; there is nothing for who asks for too many. -/
def take (queue : List Item) (len : Nat) : Option (List Item × List Item) :=
  if queue.length < len then none else some (queue.take len,queue.drop len)

/-- What comes out was in front, and what comes in goes to the back. -/
def Passes (before accepted delivered after : List Item) : Prop := before ++ accepted = delivered ++ after

variable {before between after accepted delivered : List Item}

theorem Passes.accept (queue chunk : List Item) : Passes queue chunk [] (queue ++ chunk) := rfl

theorem Passes.deliver {queue : List Item} {len : Nat} (taken : take queue len = some (delivered,after)) :
    Passes queue [] delivered after := by
  unfold take at taken
  split at taken
  next => cases taken
  next =>
    cases taken
    rw [Passes,List.append_nil,List.take_append_drop]

theorem Passes.trans {later more : List Item} (first : Passes before accepted delivered between)
    (second : Passes between later more after) : Passes before (accepted ++ later) (delivered ++ more) after := by
  unfold Passes at first second ⊢
  rw [← List.append_assoc,first,List.append_assoc,second,List.append_assoc]

inductive Call (Item : Type) where
  | push (item : Item)
  | pop

inductive Answer (Item : Type) where
  | pushed (taken : Bool)
  | popped (item : Option Item)

/-- A queue for so many items at most. A pop of an empty one changes nothing. -/
def bounded (capacity : Nat) (queue : List Item) : Call Item → Answer Item × List Item
  | .push item => if queue.length < capacity then (.pushed true,queue ++ [item]) else (.pushed false,queue)
  | .pop => (.popped queue.head?,queue.tail)

section Serving
variable {State Model Request Reply Ask Said : Type}

def serve (model : Model → Ask → Said × Model) : Model → List Ask → List Said × Model
  | state,[] => ([],state)
  | state,ask::asks =>
    let once := model state ask
    let rest := serve model once.2 asks
    (once.1::rest.1,rest.2)

/-- One request after another, as far as each of them returns. -/
def serveAll (step : State → Request → Option (Reply × State)) : State → List Request → Option (List Reply × State)
  | state,[] => some ([],state)
  | state,request::requests => do
    let once ← step state request
    let rest ← serveAll step once.2 requests
    return (once.1::rest.1,rest.2)

/-- If each request is answered as the model answers it, so are all. -/
theorem serveAll_serve {step : State → Request → Option (Reply × State)} {model : Model → Ask → Said × Model}
    {R : State → Model → Prop} (ask : Request → Ask) (say : Said → Reply) {requests : List Request}
    (answered : ∀ request ∈ requests, ∀ state held, R state held →
      ∃ after, step state request = some (say (model held (ask request)).1,after) ∧ R after (model held (ask request)).2)
    {state : State} {held : Model} (related : R state held) :
    ∃ after, serveAll step state requests = some ((serve model held (requests.map ask)).1.map say,after) ∧
      R after (serve model held (requests.map ask)).2 := by
  induction requests generalizing state held with
  | nil => exact ⟨state,rfl,related⟩
  | cons request requests ih =>
    obtain ⟨between,once,related⟩ := answered request List.mem_cons_self state held related
    obtain ⟨after,rest,related⟩ := ih (fun other member => answered other (List.mem_cons_of_mem _ member)) related
    refine ⟨after,?_,related⟩
    simp only [serveAll,once,rest,Option.bind_eq_bind,Option.bind_some]
    rfl

end Serving

end CSpock.Library.Fifo
