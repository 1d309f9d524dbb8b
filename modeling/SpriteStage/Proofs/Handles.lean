import Mathlib.Data.List.Nodup
import Mathlib.Data.List.Perm.Basic
import SpriteStage.Proofs.Requests
/-!
# Handles

Whoever subscribes gets a handle that ends the subscription. A handle knows its listener, but not
its subscription: it takes away the earliest subscription that the listener has, if there is one.
So handles keep to their own as long as no listener subscribes twice.
-/
namespace SpriteStage

variable {α : Type}

namespace Feed

/-- Every one of some events goes to all of some listeners, one after the other. -/
def round (listeners : List Listener) (events : List (Event α)) : List (Listener × Event α) :=
  events.flatMap fun e => listeners.map fun l => (l, e)

private theorem relay_fst (f : Feed α) (out : List (Signal α)) :
    (f.relay out).1 = ⟨f.listeners, f.delivered ++ round f.listeners (Signal.events out)⟩ := by
  induction out generalizing f with
  | nil => simp [relay, round, Signal.events]
  | cons x out ih =>
    cases x with
    | event e =>
      simp [relay, ih, deliver, round, Signal.event?, Signal.events]
    | notice n => exact ih f
    | dispatched actor block inputs => exact ih f
    | pass actor => exact ih f

private theorem round_filter {listeners others : List Listener} (h : listeners.Perm others)
    (events : List (Event α))
    (l : Listener) : (round listeners events).filter (·.1 == l) = (round others events).filter (·.1 == l) := by
  have hplaces : ∀ (ls : List Listener) (e : Event α), (ls.map fun l => (l, e)).filter (·.1 == l) =
      (List.replicate (ls.count l) l).map fun l => (l, e) := by
    intro ls e
    rw [List.filter_map, ← List.filter_beq]
    rfl
  simp only [round, List.filter_flatMap, hplaces, h.count_eq]

end Feed

/-- A subscription that was made, and whether its own handle has been called since. -/
structure Subscription where
  listener : Listener
  called : Bool

namespace Subscription

def withdraw (s : Subscription) : Subscription := { s with called := true }

private theorem withdraw_of_called {s : Subscription} (h : s.called = true) : s.withdraw = s := by
  rw [withdraw, ← h]

/-- The listeners of the subscriptions whose own handles have not been called, in the order of the subscriptions. -/
def remaining (book : List Subscription) : List Listener := (book.filter (!·.called)).map (·.listener)

variable {book : List Subscription} {k : Nat} {s : Subscription}

@[simp] theorem remaining_append (book more : List Subscription) :
    remaining (book ++ more) = remaining book ++ remaining more := by
  simp [remaining]

private theorem remaining_cons_open (h : s.called = false) (book : List Subscription) :
    remaining (s :: book) = s.listener :: remaining book := by
  simp [remaining, h]

@[simp] theorem remaining_withdraw (s : Subscription) (book : List Subscription) :
    remaining (s.withdraw :: book) = remaining book := rfl

private theorem remaining_subset (book : List Subscription) : remaining book ⊆ book.map (·.listener) :=
  List.map_subset _ List.filter_sublist.subset

private theorem split_at (h : book[k]? = some s) :
    ∃ before after, book = before ++ s :: after ∧ book.modify k withdraw = before ++ s.withdraw :: after := by
  obtain ⟨hk, hs⟩ := List.getElem?_eq_some_iff.mp h
  obtain ⟨before, t, after, hbook, hlength, hmodify⟩ := List.exists_of_modify withdraw hk
  subst hbook hlength
  obtain rfl : t = s := by simpa using hs
  exact ⟨before, after, rfl, hmodify⟩

private theorem remaining_erase_perm (h : book[k]? = some s) (hopen : s.called = false) :
    ((remaining book).erase s.listener).Perm (remaining (book.modify k withdraw)) := by
  obtain ⟨before, after, rfl, hmodify⟩ := split_at h
  rw [hmodify, remaining_append, remaining_append, remaining_cons_open hopen, remaining_withdraw]
  exact (List.perm_middle.erase _).trans (by rw [List.erase_cons_head])

/-- Where listeners subscribe once, a handle takes its own subscription, and nothing when it is called again. -/
theorem remaining_erase (hdistinct : (book.map (·.listener)).Nodup) (h : book[k]? = some s) :
    (remaining book).erase s.listener = remaining (book.modify k withdraw) := by
  obtain ⟨before, after, rfl, hmodify⟩ := split_at h
  rw [List.map_append, List.map_cons, List.nodup_middle, List.nodup_cons, List.mem_append, not_or] at hdistinct
  -- So neither what comes before nor what comes after has a subscription that the handle could take instead.
  have hbefore : s.listener ∉ remaining before := fun hmem => hdistinct.1.1 (remaining_subset _ hmem)
  have hafter : s.listener ∉ remaining after := fun hmem => hdistinct.1.2 (remaining_subset _ hmem)
  rw [hmodify, remaining_append, remaining_append, remaining_withdraw, List.erase_append_right _ hbefore]
  cases hcalled : s.called with
  | false => rw [remaining_cons_open hcalled, List.erase_cons_head]
  | true =>
    have hsame : remaining (s :: after) = remaining after := by simp [remaining, hcalled]
    rw [hsame, List.erase_of_not_mem hafter]

end Subscription

/-- A house with the subscriptions that were made there. The number of a handle is that of its subscription. -/
structure Reception (α : Type) where
  house : House α
  book : List Subscription

namespace Reception

open Subscription (remaining withdraw)

/-- What can happen at a reception: a request, a subscription, or a call of a handle. -/
inductive Move (α : Type) where
  | request (r : Stage.Request α)
  | subscribe (l : Listener)
  | call (handle : Nat)

def Move.listener? : Move α → Option Listener
  | .subscribe l => some l
  | _ => none

def Move.handle? : Move α → Option Nat
  | .call handle => some handle
  | _ => none

variable [Scalar α]

/-- The reception after a move. A handle that was not given out cannot be called. -/
def step (s : Reception α) : Move α → Reception α
  | .request r => { s with house := (s.house.ask r).1 }
  | .subscribe l =>
    { house := { s.house with feed := s.house.feed.subscribe l }, book := s.book ++ [⟨l, false⟩] }
  | .call handle =>
    match s.book[handle]? with
    | some own =>
      { house := { s.house with feed := s.house.feed.unsubscribe own.listener }
        book := s.book.modify handle withdraw }
    | none => s

def run (s : Reception α) (moves : List (Move α)) : Reception α := moves.foldl step s

/-- The events that are published when a move is made. -/
def published (s : Reception α) : Move α → List (Event α)
  | .request r => Signal.events (s.house.ask r).2.out
  | _ => []

/-- What is due while some moves are made: every event that is published, once for each subscription that remains, in
the order of the subscriptions. -/
def due : Reception α → List (Move α) → List (Listener × Event α)
  | _, [] => []
  | s, m :: moves => Feed.round (remaining s.book) (s.published m) ++ due (s.step m) moves

variable {s : Reception α} {m : Move α} {moves : List (Move α)}

private theorem step_delivered (s : Reception α) (m : Move α) :
    (s.step m).house.feed.delivered =
      s.house.feed.delivered ++ Feed.round s.house.feed.listeners (s.published m) := by
  cases m with
  | request r => simp only [step, published, House.ask, Feed.relay_fst, Feed.events_relay]
  | subscribe l => exact (List.append_nil _).symm
  | call handle =>
    simp only [step]
    split <;> exact (List.append_nil _).symm

private theorem step_book (s : Reception α) (m : Move α) :
    (s.step m).book.map (·.listener) = s.book.map (·.listener) ++ m.listener?.toList := by
  cases m with
  | request r => exact (List.append_nil _).symm
  | subscribe l => simp [step, Move.listener?]
  | call handle =>
    simp only [step, Move.listener?, Option.toList_none, List.append_nil]
    split
    · rename_i own hown
      obtain ⟨before, after, hbook, hmodify⟩ := Subscription.split_at hown
      rw [hmodify, hbook]
      simp [withdraw]
    · rfl

/-! ## Listeners that subscribe once -/

/-- No listener has subscribed twice, and those who listen are those whose subscriptions remain. -/
structure Fair (s : Reception α) : Prop where
  listeners : s.house.feed.listeners = remaining s.book
  distinct : (s.book.map (·.listener)).Nodup

private theorem Fair.step (h : s.Fair) (hnew : (s.book.map (·.listener) ++ m.listener?.toList).Nodup) :
    (s.step m).Fair where
  distinct := by rwa [step_book]
  listeners := by
    cases m with
    | request r => simpa only [Reception.step, House.ask, Feed.relay_fst] using h.listeners
    | subscribe l => simp [Reception.step, Feed.subscribe, h.listeners, remaining]
    | call handle =>
      simp only [Reception.step]
      split
      · rename_i own hown
        exact (congrArg (List.erase · own.listener) h.listeners).trans (Subscription.remaining_erase h.distinct hown)
      · exact h.listeners

private theorem Fair.run (h : s.Fair)
    (hdistinct : (s.book.map (·.listener) ++ moves.filterMap Move.listener?).Nodup) :
    (s.run moves).Fair ∧ (s.run moves).house.feed.delivered = s.house.feed.delivered ++ s.due moves := by
  induction moves generalizing s with
  | nil => exact ⟨h, (List.append_nil _).symm⟩
  | cons m moves ih =>
    have hsplit : (s.book.map (·.listener) ++ m.listener?.toList ++ moves.filterMap Move.listener?).Nodup := by
      rw [List.append_assoc]
      cases hm : m.listener? <;> simpa [hm] using hdistinct
    obtain ⟨hfair, hdelivered⟩ := ih (h.step hsplit.of_append_left) (by rwa [step_book])
    refine ⟨hfair, ?_⟩
    rw [Reception.run, List.foldl_cons, ← Reception.run, hdelivered, step_delivered, h.listeners, due,
      List.append_assoc]

private theorem Fair.step_call (h : s.Fair) {k : Nat} {own : Subscription} (hown : s.book[k]? = some own)
    (hcalled : own.called = true) : s.step (.call k) = s := by
  have hbook : s.book.modify k withdraw = s.book := by
    obtain ⟨before, after, hsplit, hmodify⟩ := Subscription.split_at hown
    rw [hmodify, Subscription.withdraw_of_called hcalled, hsplit]
  have hfeed : s.house.feed.unsubscribe own.listener = s.house.feed := by
    rw [Feed.unsubscribe, h.listeners, Subscription.remaining_erase h.distinct hown, hbook, ← h.listeners]
  simp only [Reception.step, hown, hbook, hfeed]

/-- Handles keep to their own subscriptions where no listener subscribes twice. From a house without listeners on,
every event that is published is delivered once for each subscription that has been made and whose own handle has not
been called, in the order of the subscriptions, whichever listeners fail. And a handle that has been called does
nothing any more. -/
theorem distinct_listeners_get_their_due {h : House α} (hnobody : h.feed.listeners = []) {moves : List (Move α)}
    (hdistinct : (moves.filterMap Move.listener?).Nodup) :
    (run ⟨h, []⟩ moves).house.feed.delivered = h.feed.delivered ++ due ⟨h, []⟩ moves ∧
      ∀ k own, (run ⟨h, []⟩ moves).book[k]? = some own → own.called = true →
        (run ⟨h, []⟩ moves).step (.call k) = run ⟨h, []⟩ moves := by
  have hstart : Fair ⟨h, []⟩ := ⟨hnobody, List.nodup_nil⟩
  obtain ⟨hfair, hdelivered⟩ := hstart.run hdistinct
  exact ⟨hdelivered, fun _ _ => hfair.step_call⟩

/-! ## Handles that are called once -/

private theorem step_listeners_perm (h : s.house.feed.listeners.Perm (remaining s.book))
    (hfirst : ∀ k own, m.handle? = some k → s.book[k]? = some own → own.called = false) :
    (s.step m).house.feed.listeners.Perm (remaining (s.step m).book) := by
  cases m with
  | request r => simpa only [step, House.ask, Feed.relay_fst] using h
  | subscribe l => simpa [step, Feed.subscribe, remaining] using h.append_right [l]
  | call handle =>
    simp only [step]
    split
    · rename_i own hown
      exact (h.erase own.listener).trans (Subscription.remaining_erase_perm hown (hfirst handle own rfl hown))
    · exact h

private theorem step_open {k : Nat} (hother : m.handle? ≠ some k)
    (h : ∀ own, s.book[k]? = some own → own.called = false) :
    ∀ own, (s.step m).book[k]? = some own → own.called = false := by
  intro own hown
  cases m with
  | request r => exact h own hown
  | subscribe l =>
    rw [step, List.getElem?_append] at hown
    split at hown
    · exact h own hown
    · obtain rfl : own = ⟨l, false⟩ := by simpa using List.mem_of_getElem? hown
      rfl
  | call handle =>
    have hne : handle ≠ k := fun heq => hother (congrArg some heq)
    simp only [step] at hown
    split at hown
    · rw [List.getElem?_modify_ne _ _ hne] at hown
      exact h own hown
    · exact h own hown

/-- What is delivered to one of the listeners depends on how many subscriptions it has, and not on their places. -/
theorem run_delivered_to (h : s.house.feed.listeners.Perm (remaining s.book))
    (hcalls : (moves.filterMap Move.handle?).Nodup)
    (hfirst : ∀ k ∈ moves.filterMap Move.handle?, ∀ own, s.book[k]? = some own → own.called = false) (l : Listener) :
    (s.run moves).house.feed.delivered.filter (·.1 == l) =
      (s.house.feed.delivered ++ s.due moves).filter (·.1 == l) := by
  induction moves generalizing s with
  | nil =>
    rw [due, List.append_nil]
    rfl
  | cons m moves ih =>
    have hsplit : (m :: moves).filterMap Move.handle? = m.handle?.toList ++ moves.filterMap Move.handle? := by
      cases hm : m.handle? <;> simp [hm]
    rw [hsplit] at hcalls hfirst
    have hnow : ∀ k own, m.handle? = some k → s.book[k]? = some own → own.called = false := by
      intro k own hk
      exact hfirst k (by simp [hk]) own
    have hlater : ∀ k ∈ moves.filterMap Move.handle?, ∀ own, (s.step m).book[k]? = some own → own.called = false := by
      intro k hk
      have hother : m.handle? ≠ some k := fun hm => List.disjoint_of_nodup_append hcalls (by simp [hm]) hk
      exact step_open hother (hfirst k (List.mem_append_right _ hk))
    have hrest := ih (step_listeners_perm h hnow) hcalls.of_append_right hlater
    rw [run, List.foldl_cons, ← run, hrest, step_delivered, due]
    simp only [List.filter_append, Feed.round_filter h, List.append_assoc]

/-- Where no handle is called twice, every listener gets every event as often as it has subscriptions whose own
handles have not been called, however often it subscribes and whichever listeners fail. -/
theorem listeners_get_as_much_as_is_due {h : House α} (hnobody : h.feed.listeners = []) {moves : List (Move α)}
    (hcalls : (moves.filterMap Move.handle?).Nodup) (l : Listener) :
    (run ⟨h, []⟩ moves).house.feed.delivered.filter (·.1 == l) =
      (h.feed.delivered ++ due ⟨h, []⟩ moves).filter (·.1 == l) := by
  refine run_delivered_to (s := ⟨h, []⟩) ?_ hcalls (by simp) l
  rw [hnobody]
  exact .refl _

/-! ## Handles that miss their own subscription -/

/-- A listener that subscribes before another and again after it, and then calls the second of its handles, has the
place after the other and not the one before. -/
theorem second_handle_takes_first_place {h : House α} (hnobody : h.feed.listeners = []) (l other : Listener) :
    (run ⟨h, []⟩ [.subscribe l, .subscribe other, .subscribe l, .call 2]).house.feed.listeners = [other, l] ∧
      remaining (run ⟨h, []⟩ [.subscribe l, .subscribe other, .subscribe l, .call 2]).book = [l, other] := by
  refine ⟨?_, rfl⟩
  change (h.feed.listeners ++ [l] ++ [other] ++ [l]).erase l = [other, l]
  rw [hnobody]
  simp

/-- A listener that subscribes twice and calls the first of its handles twice gets nothing any more, though it has not
called the second. -/
theorem repeated_call_takes_another {h : House α} (hnobody : h.feed.listeners = []) (l : Listener) :
    (run ⟨h, []⟩ [.subscribe l, .subscribe l, .call 0, .call 0]).house.feed.listeners = [] ∧
      remaining (run ⟨h, []⟩ [.subscribe l, .subscribe l, .call 0, .call 0]).book = [l] := by
  refine ⟨?_, rfl⟩
  change ((h.feed.listeners ++ [l] ++ [l]).erase l).erase l = []
  rw [hnobody]
  simp

end Reception

end SpriteStage
