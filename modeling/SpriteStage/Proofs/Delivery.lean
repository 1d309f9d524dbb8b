import Mathlib.Data.List.Induction
import Mathlib.Data.List.Nodup
import SpriteStage.Hub
/-!
# Delivery

What a queue has been given is a matter of the history of the hub alone: the payloads that were
published while it was the registered queue of its client, in their order, without those that
found it full. The proof goes over the desk of a client, which is what the hub holds for this
client and nothing else.
-/
namespace SpriteStage

/-! ## Lists in which some entries count -/

section Rank

variable {β : Type} {p : β → Bool} {f : β → β} {l : List β} {i : Nat} {x : β}

/-- How many entries that count stand before a place. -/
def rank (p : β → Bool) (l : List β) (i : Nat) : Nat := ((l.take i).filter p).length

private theorem rank_succ (p : β → Bool) (y : β) (l : List β) (i : Nat) :
    rank p (y :: l) (i + 1) = (if p y then 1 else 0) + rank p l i := by
  simp only [rank, List.take_succ_cons, List.filter_cons]
  split
  · rw [List.length_cons]
    omega
  · omega

private theorem rank_congr {γ : Type} {l l' : List β} {g : β → γ} {p : γ → Bool} (h : l.map g = l'.map g)
    (i : Nat) :
    rank (p ∘ g) l i = rank (p ∘ g) l' i := by
  have hlength : ∀ l : List β, rank (p ∘ g) l i = (((l.map g).take i).filter p).length := by
    intro l
    rw [← List.map_take, List.filter_map, List.length_map]
    rfl
  rw [hlength, hlength, h]

private theorem getElem?_rank (hx : l[i]? = some x) (hp : p x = true) : (l.filter p)[rank p l i]? = some x := by
  induction l generalizing i with
  | nil => simp at hx
  | cons y l ih =>
    cases i with
    | zero =>
      simp only [List.getElem?_cons_zero, Option.some.injEq] at hx
      subst hx
      simp [rank, hp]
    | succ i =>
      rw [List.getElem?_cons_succ] at hx
      rw [rank_succ, List.filter_cons]
      split
      · rw [Nat.add_comm, List.getElem?_cons_succ]
        exact ih hx
      · rw [Nat.zero_add]
        exact ih hx

private theorem filter_modify (hf : ∀ x, p (f x) = p x) (hx : l[i]? = some x) (hp : p x = true) :
    (l.modify i f).filter p = (l.filter p).modify (rank p l i) f := by
  induction l generalizing i with
  | nil => simp at hx
  | cons y l ih =>
    cases i with
    | zero =>
      simp only [List.getElem?_cons_zero, Option.some.injEq] at hx
      subst hx
      simp [rank, hf, hp]
    | succ i =>
      rw [List.getElem?_cons_succ] at hx
      rw [List.modify_succ_cons, rank_succ, List.filter_cons, List.filter_cons, ih hx]
      split
      · rw [Nat.add_comm, List.modify_succ_cons]
      · rw [Nat.zero_add]

private theorem filter_modify_of_not (hf : ∀ x, p (f x) = p x) (hx : ∀ x, l[i]? = some x → p x = false) :
    (l.modify i f).filter p = l.filter p := by
  induction l generalizing i with
  | nil => simp
  | cons y l ih =>
    cases i with
    | zero =>
      have hy : p y = false := hx y rfl
      simp [hf, hy]
    | succ i =>
      rw [List.modify_succ_cons, List.filter_cons, List.filter_cons]
      rw [ih fun x h => hx x (by rw [List.getElem?_cons_succ]; exact h)]

private theorem zipIdx_filter (p : β → Bool) (l : List β) (k n : Nat) :
    match ((l.zipIdx k).filter fun x => p x.1)[n]? with
    | none => (l.filter p)[n]? = none
    | some (x, j) => ∃ i, j = k + i ∧ l[i]? = some x ∧ p x = true ∧ rank p l i = n := by
  induction l generalizing k n with
  | nil => simp
  | cons y l ih =>
    rw [List.zipIdx_cons, List.filter_cons, List.filter_cons]
    dsimp only
    by_cases hy : p y = true
    · rw [if_pos hy, if_pos hy]
      cases n with
      | zero => exact ⟨0, rfl, rfl, hy, by simp [rank]⟩
      | succ n =>
        have hrest := ih (k + 1) n
        rw [List.getElem?_cons_succ, List.getElem?_cons_succ]
        split at hrest
        · exact hrest
        · obtain ⟨i, hj, hx, hp, hrank⟩ := hrest
          refine ⟨i + 1, by omega, hx, hp, ?_⟩
          rw [rank_succ, if_pos hy]
          omega
    · rw [if_neg hy, if_neg hy]
      have hrest := ih (k + 1) n
      split at hrest
      · exact hrest
      · obtain ⟨i, hj, hx, hp, hrank⟩ := hrest
        refine ⟨i + 1, by omega, hx, hp, ?_⟩
        rw [rank_succ, if_neg hy]
        omega

end Rank

variable {σ π : Type}

namespace Outbound

def put (payload : π) (q : Outbound σ π) : Outbound σ π := { q with items := q.items ++ [payload] }

def pumped (q : Outbound σ π) : Outbound σ π :=
  match q.items with
  | [] => q
  | payload :: rest => { q with items := rest, taken := q.taken ++ [payload] }

def given (q : Outbound σ π) : List π := q.taken ++ q.items

@[simp]
theorem given_put (payload : π) (q : Outbound σ π) : (q.put payload).given = q.given ++ [payload] :=
  (List.append_assoc _ _ _).symm

@[simp]
theorem owner_pumped (q : Outbound σ π) : q.pumped.owner = q.owner := by
  unfold pumped
  split <;> rfl

@[simp]
theorem given_pumped (q : Outbound σ π) : q.pumped.given = q.given := by
  unfold pumped given
  split
  · rfl
  · rename_i hitems
    simp [hitems]

private theorem length_pumped (q : Outbound σ π) : q.pumped.items.length ≤ q.items.length := by
  unfold pumped
  split
  · exact Nat.le_refl _
  · rename_i hitems
    simp [hitems]

end Outbound

namespace Hub

variable [DecidableEq σ]

/-- Whether a queue of some length takes no more where at most `max` payloads may wait. -/
def full (max : Int) (length : Nat) : Bool := decide (0 < max) && decide (max ≤ length)

/-- What can happen to a hub. A queue is told by its client and by how many queues the client was handed
before. -/
inductive Act (σ π : Type) where
  | connect (client : σ)
  | disconnect (client : σ)
  | publish (payload : π)
  | pump (client : σ) (nth : Nat)

def handed (h : Hub σ π) (client : σ) (nth : Nat) : Option Nat :=
  ((h.queues.zipIdx.filter (·.1.owner == client))[nth]?).map (·.2)

def perform (h : Hub σ π) : Act σ π → Hub σ π
  | .connect client => (h.connect client).1
  | .disconnect client => h.disconnect client
  | .publish payload => (h.publish payload).1
  | .pump client nth =>
    match h.handed client nth with
    | none => h
    | some queue => h.pump queue

def run (max : Int) (acts : List (Act σ π)) : Hub σ π := acts.foldl perform (new max)

/-- The queues that were handed out to a client, in that order. -/
def queuesOf (h : Hub σ π) (client : σ) : List (Outbound σ π) := h.queues.filter (·.owner == client)

/-! ## Histories -/

def Act.attaches (client : σ) : Act σ π → Option Bool
  | .connect c => if c = client then some true else none
  | .disconnect c => if c = client then some false else none
  | _ => none

/-- Whether an act concerns a client: a publication, or an act of its own. -/
def Act.concerns (client : σ) : Act σ π → Bool
  | .connect c => c == client
  | .disconnect c => c == client
  | .publish _ => true
  | .pump c _ => c == client

def connects (client : σ) (acts : List (Act σ π)) : Nat :=
  (acts.filterMap (Act.attaches client)).count true

/-- Whether a queue of a client is the registered one: the client has connected last, and not disconnected,
and was handed this queue then. -/
def registered (client : σ) (nth : Nat) (acts : List (Act σ π)) : Bool :=
  (acts.filterMap (Act.attaches client)).getLast? == some true && connects client acts == nth + 1

/-- The payloads that are published at moments of some kind, in order. A moment is told by what has happened
before. -/
def publishedWhen (moment : List (Act σ π) → Bool) (acts : List (Act σ π)) : List π :=
  (List.range acts.length).filterMap fun (i : Nat) =>
    match acts[i]? with
    | some (.publish payload) => if moment (acts.take i) then some payload else none
    | _ => none

/-- Whether a queue is registered for its client and takes another payload. -/
def receives (max : Int) (client : σ) (nth : Nat) (acts : List (Act σ π)) : Bool :=
  registered client nth acts &&
    !full max ((((run max acts).queuesOf client)[nth]?).elim 0 (·.items.length))

omit [DecidableEq σ] in
theorem publishedWhen_concat (moment : List (Act σ π) → Bool) (acts : List (Act σ π)) (a : Act σ π) :
    publishedWhen moment (acts ++ [a]) = publishedWhen moment acts ++
      match a with
      | .publish payload => if moment acts then [payload] else []
      | _ => [] := by
  unfold publishedWhen
  rw [List.length_append, List.length_singleton, List.range_succ, List.filterMap_append]
  congr 1
  · apply List.filterMap_congr
    intro i hi
    have hlt : i < acts.length := List.mem_range.mp hi
    rw [List.getElem?_append_left hlt, List.take_append_of_le_length (by omega)]
  · rw [List.filterMap_cons, List.getElem?_concat_length, List.take_left]
    cases a with
    | publish payload =>
      by_cases h : moment acts = true <;> simp [h]
    | _ => rfl

end Hub

/-! ## The desk of a client -/

/-- What a hub holds for one client: its queues, and the place of the registered one among them. -/
structure Desk (σ π : Type) where
  queues : List (Outbound σ π)
  current : Option Nat

variable [DecidableEq σ]

/-- Puts a payload into the registered queue, unless that is full. -/
def Desk.put (max : Int) (payload : π) (d : Desk σ π) : Desk σ π :=
  match d.current with
  | none => d
  | some n =>
    if Hub.full max ((d.queues[n]?).elim 0 (·.items.length)) then d
    else { d with queues := d.queues.modify n (·.put payload) }

/-- Lets an act happen, as far as it concerns one client. -/
def Desk.perform (max : Int) (client : σ) (d : Desk σ π) : Hub.Act σ π → Desk σ π
  | .connect c =>
    if c = client then ⟨d.queues ++ [⟨client, [], []⟩], some d.queues.length⟩ else d
  | .disconnect c => if c = client then { d with current := none } else d
  | .publish payload => d.put max payload
  | .pump c nth => if c = client then { d with queues := d.queues.modify nth Outbound.pumped } else d

namespace Hub

def desk (h : Hub σ π) (client : σ) : Desk σ π where
  queues := h.queuesOf client
  current := (h.connected.lookup client).map (rank (·.owner == client) h.queues)

/-- Clients under which queues of their own are entered, each once. -/
structure Entered (queues : List (Outbound σ π)) (connected : List (σ × Nat)) : Prop where
  once : (connected.map (·.1)).Nodup
  own : ∀ entry ∈ connected, ∃ q, queues[entry.2]? = some q ∧ q.owner = entry.1

/-- The registered queues of a hub are entered under their clients. -/
def Sound (h : Hub σ π) : Prop := Entered h.queues h.connected

private theorem lookup_enter (client c : σ) (queue : Nat) (l : List (σ × Nat)) :
    (enter client queue l).lookup c = if c = client then some queue else l.lookup c := by
  induction l with
  | nil =>
    by_cases h : c = client
    · simp [enter, h]
    · simp [enter, h, List.lookup_cons, beq_false_of_ne h]
  | cons entry l ih =>
    obtain ⟨d, q⟩ := entry
    rw [enter]
    by_cases hd : d = client
    · subst hd
      rw [if_pos rfl]
      by_cases h : c = d
      · simp [h]
      · simp [h, List.lookup_cons, beq_false_of_ne h]
    · rw [if_neg hd, List.lookup_cons, List.lookup_cons, ih]
      by_cases h : c = d
      · subst h
        simp [hd]
      · simp [beq_false_of_ne h]

private theorem lookup_leave (client c : σ) (l : List (σ × Nat)) :
    (l.filter (·.1 != client)).lookup c = if c = client then none else l.lookup c := by
  induction l with
  | nil => simp
  | cons entry l ih =>
    obtain ⟨d, q⟩ := entry
    rw [List.filter_cons]
    by_cases hd : d = client
    · subst hd
      simp only [bne_self_eq_false, Bool.false_eq_true, if_false, ih]
      by_cases h : c = d
      · simp [h]
      · simp [h, List.lookup_cons, beq_false_of_ne h]
    · rw [if_pos (by simpa using hd), List.lookup_cons, List.lookup_cons, ih]
      by_cases h : c = d
      · subst h
        simp [hd]
      · simp [beq_false_of_ne h]

omit [DecidableEq σ] in
theorem Entered.congr {queues queues' : List (Outbound σ π)} {connected : List (σ × Nat)}
    (h : Entered queues connected) (howners : queues'.map (·.owner) = queues.map (·.owner)) :
    Entered queues' connected := by
  refine ⟨h.once, ?_⟩
  intro entry hentry
  obtain ⟨q, hq, hown⟩ := h.own entry hentry
  have hthere : (queues'.map (·.owner))[entry.2]? = some q.owner := by
    rw [howners, List.getElem?_map, hq]
    rfl
  rw [List.getElem?_map] at hthere
  obtain ⟨q', hq', howner⟩ := Option.map_eq_some_iff.mp hthere
  exact ⟨q', hq', howner.trans hown⟩

private theorem mem_enter {client : σ} {queue : Nat} {l : List (σ × Nat)} {entry : σ × Nat}
    (h : entry ∈ enter client queue l) : entry = (client, queue) ∨ entry ∈ l := by
  induction l with
  | nil => exact .inl (List.mem_singleton.mp h)
  | cons first l ih =>
    obtain ⟨c, q⟩ := first
    rw [enter] at h
    split at h
    · rename_i hc
      rcases List.mem_cons.mp h with rfl | h
      · exact .inl (by rw [hc])
      · exact .inr (List.mem_cons_of_mem _ h)
    · rcases List.mem_cons.mp h with rfl | h
      · exact .inr List.mem_cons_self
      · exact (ih h).imp_right (List.mem_cons_of_mem _)

private theorem names_enter (client : σ) (queue : Nat) (l : List (σ × Nat)) :
    (enter client queue l).map (·.1) =
      if client ∈ l.map (·.1) then l.map (·.1) else l.map (·.1) ++ [client] := by
  induction l with
  | nil => rfl
  | cons first l ih =>
    obtain ⟨c, q⟩ := first
    rw [enter]
    by_cases hc : c = client
    · simp [hc]
    · have hne : client ≠ c := fun heq => hc heq.symm
      rw [if_neg hc, List.map_cons, ih, List.map_cons]
      simp only [List.mem_cons, hne, false_or]
      split
      · rfl
      · rfl

private theorem Entered.enter {queues : List (Outbound σ π)} {connected : List (σ × Nat)}
    (h : Entered queues connected) (client : σ) :
    Entered (queues ++ [⟨client, [], []⟩]) (Hub.enter client queues.length connected) := by
  refine ⟨?_, ?_⟩
  · rw [names_enter]
    split
    · exact h.once
    · rename_i hnew
      exact List.nodup_append.mpr ⟨h.once, List.nodup_singleton client, by
        intro c hc c' hc'
        rw [List.mem_singleton.mp hc']
        rintro rfl
        exact hnew hc⟩
  · intro entry hentry
    rcases mem_enter hentry with rfl | hentry
    · exact ⟨_, List.getElem?_concat_length, rfl⟩
    · obtain ⟨q, hq, hown⟩ := h.own entry hentry
      have hlt := (List.getElem?_eq_some_iff.mp hq).1
      exact ⟨q, by rw [List.getElem?_append_left hlt]; exact hq, hown⟩

omit [DecidableEq σ] in
theorem owners_modify (queues : List (Outbound σ π)) (i : Nat) {f : Outbound σ π → Outbound σ π}
    (hf : ∀ q, (f q).owner = q.owner) : (queues.modify i f).map (·.owner) = queues.map (·.owner) := by
  induction queues generalizing i with
  | nil => simp
  | cons q queues ih =>
    cases i with
    | zero => simp [hf]
    | succ i => rw [List.modify_succ_cons, List.map_cons, List.map_cons, ih]

private theorem queuesOf_modify {h : Hub σ π} {i : Nat} {q : Outbound σ π} (hq : h.queues[i]? = some q)
    {f : Outbound σ π → Outbound σ π} (hf : ∀ q, (f q).owner = q.owner) (client : σ) :
    (h.queues.modify i f).filter (·.owner == client) =
      if q.owner = client then (h.queuesOf client).modify (rank (·.owner == client) h.queues i) f
      else h.queuesOf client := by
  have hsame : ∀ q, ((f q).owner == client) = (q.owner == client) := fun q => by rw [hf]
  split
  · rename_i hown
    exact filter_modify hsame hq (by simpa using hown)
  · rename_i hother
    apply filter_modify_of_not hsame
    intro q' hq'
    rw [hq] at hq'
    cases hq'
    simpa using hother

private theorem rank_modify (queues : List (Outbound σ π)) (i : Nat) {f : Outbound σ π → Outbound σ π}
    (hf : ∀ q, (f q).owner = q.owner) (client : σ) :
    rank (·.owner == client) (queues.modify i f) = rank (·.owner == client) queues := by
  funext j
  exact rank_congr (p := (· == client)) (owners_modify queues i hf) j

omit [DecidableEq σ] in
theorem Entered.tail {queues : List (Outbound σ π)} {entry : σ × Nat} {entries : List (σ × Nat)}
    (h : Entered queues (entry :: entries)) : Entered queues entries :=
  ⟨(List.nodup_cons.mp h.once).2, fun e he => h.own e (List.mem_cons_of_mem _ he)⟩

private theorem Entered.lookup_tail {queues : List (Outbound σ π)} {entry : σ × Nat} {entries : List (σ × Nat)}
    (h : Entered queues (entry :: entries)) : entries.lookup entry.1 = none := by
  rw [List.lookup_eq_none_iff]
  intro e he
  have hnew : entry.1 ∉ entries.map (·.1) := (List.nodup_cons.mp h.once).1
  simp only [bne_iff_ne, ne_eq]
  intro heq
  exact hnew (List.mem_map.mpr ⟨e, he, heq.symm⟩)

omit [DecidableEq σ] in
theorem publishTo_frame (payload : π) (entries : List (σ × Nat)) (h : Hub σ π) :
    (publishTo payload entries h).1.maxQueue = h.maxQueue ∧
      (publishTo payload entries h).1.connected = h.connected ∧
      (publishTo payload entries h).1.queues.map (·.owner) = h.queues.map (·.owner) := by
  induction entries generalizing h with
  | nil => exact ⟨rfl, rfl, rfl⟩
  | cons entry entries ih =>
    rw [publishTo]
    dsimp only
    split
    · exact ih h
    · obtain ⟨hmax, hconnected, howners⟩ := ih (h.push entry.2 payload)
      exact ⟨hmax, hconnected, howners.trans (owners_modify h.queues entry.2 fun _ => rfl)⟩

private theorem queuesOf_publishTo (payload : π) {entries : List (σ × Nat)} {h : Hub σ π}
    (hentries : Entered h.queues entries) (client : σ) :
    (publishTo payload entries h).1.queuesOf client = (Desk.put h.maxQueue payload ⟨h.queuesOf client,
      (entries.lookup client).map (rank (·.owner == client) h.queues)⟩).queues := by
  induction entries generalizing h with
  | nil => rfl
  | cons entry entries ih =>
    obtain ⟨c, i⟩ := entry
    obtain ⟨q, hq, hown⟩ := hentries.own (c, i) List.mem_cons_self
    -- The client is not entered once more, so what the other entries get does not come to its desk.
    have hlast := hentries.lookup_tail
    dsimp only at hq hown hlast
    have hisFull : h.isFull q.items.length = full h.maxQueue q.items.length := rfl
    rw [publishTo]
    simp only [hq, Option.map_some, Option.getD_some, hisFull]
    by_cases hfull : full h.maxQueue q.items.length = true
    · rw [if_pos hfull]
      refine (ih hentries.tail).trans ?_
      by_cases hclient : client = c
      · subst hclient
        have hmine : (h.queuesOf client)[rank (·.owner == client) h.queues i]? = some q :=
          getElem?_rank hq (by simpa using hown)
        simp only [hlast, List.lookup_cons_self, Option.map_none, Option.map_some, Desk.put, hmine,
          Option.elim_some]
        rw [if_pos hfull]
      · rw [List.lookup_cons, beq_false_of_ne hclient]
    · have hqueue := queuesOf_modify hq (f := (·.put payload)) (fun _ => rfl) client
      have hrank := rank_modify h.queues i (f := (·.put payload)) (fun _ => rfl) client
      rw [if_neg hfull]
      refine (ih (h := h.push i payload)
        (hentries.tail.congr (owners_modify h.queues i fun _ => rfl))).trans ?_
      change (Desk.put h.maxQueue payload ⟨(h.queues.modify i (·.put payload)).filter _,
        (entries.lookup client).map (rank _ (h.queues.modify i (·.put payload)))⟩).queues = _
      rw [hqueue, hrank]
      by_cases hclient : client = c
      · subst hclient
        have hmine : (h.queuesOf client)[rank (·.owner == client) h.queues i]? = some q :=
          getElem?_rank hq (by simpa using hown)
        simp only [hown, if_true, hlast, List.lookup_cons_self, Option.map_none, Option.map_some, Desk.put,
          hmine, Option.elim_some]
        rw [if_neg hfull]
      · have hother : q.owner ≠ client := fun heq => hclient (heq.symm.trans hown)
        rw [if_neg hother, List.lookup_cons, beq_false_of_ne hclient]

private theorem handed_spec (h : Hub σ π) (client : σ) (nth : Nat) :
    match h.handed client nth with
    | none => (h.queuesOf client)[nth]? = none
    | some i => ∃ q, h.queues[i]? = some q ∧ q.owner = client ∧
        rank (·.owner == client) h.queues i = nth := by
  have hspec := zipIdx_filter (fun q : Outbound σ π => q.owner == client) h.queues 0 nth
  unfold handed
  split at hspec
  · rename_i hnone
    rw [hnone]
    exact hspec
  · rename_i q j hsome
    rw [hsome]
    obtain ⟨i, rfl, hq, hown, hrank⟩ := hspec
    rw [Nat.zero_add]
    exact ⟨q, hq, by simpa using hown, hrank⟩

/-- The queue that connecting hands out comes after those that the client was handed before. -/
theorem handed_connect (h : Hub σ π) (client : σ) :
    (h.connect client).1.handed client (h.queuesOf client).length = some (h.connect client).2 := by
  have hlength : (h.queuesOf client).length = (h.queues.zipIdx.filter (·.1.owner == client)).length := by
    have hmap := List.filter_map (p := fun q : Outbound σ π => q.owner == client) (f := Prod.fst)
      (l := h.queues.zipIdx)
    rw [List.zipIdx_map_fst] at hmap
    rw [queuesOf, hmap, List.length_map]
    rfl
  simp only [handed, connect, hlength]
  simp [List.zipIdx_append]

private theorem connect_spec {h : Hub σ π} (hsound : h.Sound) (c client : σ) :
    (h.perform (.connect c)).desk client = (h.desk client).perform h.maxQueue client (.connect c) := by
  -- A new queue at the end does not change the places of the registered ones.
  have hrank : ∀ entry ∈ h.connected, rank (·.owner == client) (h.queues ++ [⟨c, [], []⟩]) entry.2 =
      rank (·.owner == client) h.queues entry.2 := by
    intro entry hentry
    obtain ⟨q, hq, -⟩ := hsound.own entry hentry
    have hlt := (List.getElem?_eq_some_iff.mp hq).1
    rw [rank, rank, List.take_append_of_le_length (by omega)]
  simp only [perform, connect, desk, lookup_enter, Desk.perform, queuesOf, List.filter_append]
  by_cases hclient : c = client
  · subst hclient
    simp [rank]
  · have hne : client ≠ c := fun heq => hclient heq.symm
    simp only [hclient, hne, if_false, List.filter_cons, beq_iff_eq, List.filter_nil, List.append_nil,
      Desk.mk.injEq, true_and]
    cases hlookup : h.connected.lookup client with
    | none => rfl
    | some i =>
      obtain ⟨before, after, hmem, -⟩ := List.lookup_eq_some_iff.mp hlookup
      have hentry : (client, i) ∈ h.connected := by simp [hmem]
      exact congrArg some (hrank _ hentry)

private theorem disconnect_spec (h : Hub σ π) (c client : σ) :
    (h.perform (.disconnect c)).desk client = (h.desk client).perform h.maxQueue client (.disconnect c) := by
  simp only [perform, disconnect, desk, lookup_leave, Desk.perform]
  by_cases hclient : c = client
  · subst hclient
    simp
    rfl
  · have hne : client ≠ c := fun heq => hclient heq.symm
    simp only [hclient, hne, if_false]
    rfl

private theorem publish_spec {h : Hub σ π} (hsound : h.Sound) (payload : π) (client : σ) :
    (h.perform (.publish payload)).desk client =
      (h.desk client).perform h.maxQueue client (.publish payload) := by
  obtain ⟨-, hconnected, howners⟩ := publishTo_frame payload h.connected h
  have hqueues := queuesOf_publishTo payload hsound client
  have hrank : rank (·.owner == client) (publishTo payload h.connected h).1.queues =
      rank (·.owner == client) h.queues := by
    funext i
    exact rank_congr (p := (· == client)) howners i
  simp only [perform, publish, desk, hqueues, hconnected, hrank]
  cases h.connected.lookup client with
  | none => rfl
  | some i =>
    simp only [Option.map_some, Desk.perform, Desk.put]
    split
    · rfl
    · rfl

private theorem pump_spec (h : Hub σ π) (c : σ) (nth : Nat) :
    (h.perform (.pump c nth)).maxQueue = h.maxQueue ∧ (h.perform (.pump c nth)).connected = h.connected ∧
      (h.perform (.pump c nth)).queues.map (·.owner) = h.queues.map (·.owner) ∧
      ∀ client, (h.perform (.pump c nth)).desk client =
        (h.desk client).perform h.maxQueue client (.pump c nth) := by
  have hspec := handed_spec h c nth
  simp only [perform]
  cases hhanded : h.handed c nth with
  | none =>
    rw [hhanded] at hspec
    have hsame : (h.queuesOf c).modify nth Outbound.pumped = h.queuesOf c := by
      apply List.ext_getElem?
      intro j
      rw [List.getElem?_modify]
      by_cases hj : nth = j
      · subst hj
        rw [hspec]
        rfl
      · simp [hj]
    refine ⟨rfl, rfl, rfl, ?_⟩
    intro client
    by_cases hclient : c = client
    · subst hclient
      simp only [Desk.perform, if_true, desk, hsame]
    · simp only [Desk.perform, hclient, if_false]
  | some i =>
    rw [hhanded] at hspec
    obtain ⟨q, hq, hown, hrank⟩ := hspec
    refine ⟨rfl, rfl, owners_modify h.queues i Outbound.owner_pumped, ?_⟩
    intro client
    change Desk.mk ((h.queues.modify i Outbound.pumped).filter _)
      ((h.connected.lookup client).map (rank _ (h.queues.modify i Outbound.pumped))) = _
    rw [queuesOf_modify hq Outbound.owner_pumped, rank_modify h.queues i Outbound.owner_pumped]
    simp only [hown, Desk.perform]
    split
    · rename_i hclient
      subst hclient
      rw [hrank]
      rfl
    · rfl

/-- An act keeps registered queues entered under their clients, and is seen at each desk as far as it concerns
its client. -/
theorem perform_spec {h : Hub σ π} (hsound : h.Sound) (a : Act σ π) :
    (h.perform a).maxQueue = h.maxQueue ∧ (h.perform a).Sound ∧
      ∀ client, (h.perform a).desk client = (h.desk client).perform h.maxQueue client a := by
  cases a with
  | connect c => exact ⟨rfl, hsound.enter c, connect_spec hsound c⟩
  | disconnect c =>
    refine ⟨rfl, ⟨(List.filter_sublist.map _).nodup hsound.once, ?_⟩, disconnect_spec h c⟩
    intro entry hentry
    exact hsound.own entry (List.mem_filter.mp hentry).1
  | publish payload =>
    obtain ⟨hmax, hconnected, howners⟩ := publishTo_frame payload h.connected h
    refine ⟨hmax, ?_, publish_spec hsound payload⟩
    change Entered _ (publishTo payload h.connected h).1.connected
    rw [hconnected]
    exact Entered.congr hsound howners
  | pump c nth =>
    obtain ⟨hmax, hconnected, howners, hdesk⟩ := pump_spec h c nth
    have hentered := Entered.congr hsound howners
    rw [← hconnected] at hentered
    exact ⟨hmax, hentered, hdesk⟩

/-! ## Runs of a hub -/

private theorem run_concat (max : Int) (acts : List (Act σ π)) (a : Act σ π) :
    run max (acts ++ [a]) = (run max acts).perform a := by
  rw [run, List.foldl_append]
  rfl

private theorem run_desk (max : Int) (acts : List (Act σ π)) (client : σ) :
    (run max acts).maxQueue = max ∧ (run max acts).Sound ∧
      (run max acts).desk client = acts.foldl (Desk.perform max client) ⟨[], none⟩ := by
  induction acts using List.reverseRecOn with
  | nil => exact ⟨rfl, ⟨List.nodup_nil, by simp [run, new]⟩, rfl⟩
  | append_singleton acts a ih =>
    obtain ⟨hmax, hsound, hdesk⟩ := ih
    obtain ⟨hmax', hsound', hdesk'⟩ := perform_spec hsound a
    rw [run_concat, List.foldl_append]
    refine ⟨hmax'.trans hmax, hsound', ?_⟩
    rw [hdesk', hdesk, hmax]
    rfl

end Hub

private theorem Desk.perform_other {max : Int} {client : σ} {a : Hub.Act σ π} (h : a.concerns client = false)
    (d : Desk σ π) : d.perform max client a = d := by
  cases a with
  | publish payload => cases h
  | connect c | disconnect c | pump c nth =>
    have hc : c ≠ client := by simpa [Hub.Act.concerns] using h
    simp [Desk.perform, hc]

private theorem Desk.foldl_concerns (max : Int) (client : σ) (acts : List (Hub.Act σ π)) (d : Desk σ π) :
    (acts.filter (Hub.Act.concerns client)).foldl (Desk.perform max client) d =
      acts.foldl (Desk.perform max client) d := by
  induction acts generalizing d with
  | nil => rfl
  | cons a acts ih =>
    rw [List.filter_cons, List.foldl_cons]
    split
    · rw [List.foldl_cons, ih]
    · rename_i hother
      rw [ih, Desk.perform_other (by simpa using hother)]

namespace Hub

private theorem queuesOf_run_congr {max : Int} {client : σ} {acts acts' : List (Act σ π)}
    (h : acts'.filter (Act.concerns client) = acts.filter (Act.concerns client)) :
    (run max acts').queuesOf client = (run max acts).queuesOf client := by
  have hdesk : (run max acts').desk client = (run max acts).desk client := by
    rw [(run_desk max acts' client).2.2, (run_desk max acts client).2.2, ← Desk.foldl_concerns, h,
      Desk.foldl_concerns]
  exact congrArg Desk.queues hdesk

private theorem connects_concat (client : σ) (acts : List (Act σ π)) (a : Act σ π) :
    connects client (acts ++ [a]) = connects client acts + if a.attaches client = some true then 1 else 0 := by
  unfold connects
  rw [List.filterMap_append, List.count_append]
  congr 1
  cases h : a.attaches client with
  | none => simp [h]
  | some b => cases b <;> simp [h]

private theorem registered_concat (client : σ) (nth : Nat) (acts : List (Act σ π)) (a : Act σ π) :
    registered client nth (acts ++ [a]) =
      match a.attaches client with
      | none => registered client nth acts
      | some true => connects client acts == nth
      | some false => false := by
  unfold registered
  rw [connects_concat, List.filterMap_append]
  cases h : a.attaches client with
  | none => simp [h]
  | some b => cases b <;> simp [h]

/-- What the history says about the desk of a client. -/
structure Records (max : Int) (client : σ) (acts : List (Act σ π)) (d : Desk σ π) : Prop where
  length : d.queues.length = connects client acts
  current : ∀ nth, d.current = some nth ↔ registered client nth acts = true
  given : ∀ nth, (d.queues[nth]?).elim [] Outbound.given = publishedWhen (receives max client nth) acts
  bounded : 0 < max → ∀ (nth : Nat) (q : Outbound σ π), d.queues[nth]? = some q → (q.items.length : Int) ≤ max

private theorem Records.current_lt {max : Int} {client : σ} {acts : List (Act σ π)} {d : Desk σ π}
    (h : Records max client acts d) {nth : Nat} (hcurrent : d.current = some nth) :
    nth < d.queues.length := by
  have hregistered := (h.current nth).mp hcurrent
  simp only [registered, Bool.and_eq_true, beq_iff_eq] at hregistered
  rw [h.length, hregistered.2]
  omega

omit [DecidableEq σ] in
theorem publishedWhen_silent {moment : List (Act σ π) → Bool} {acts : List (Act σ π)} {a : Act σ π}
    (h : ∀ payload, a ≠ .publish payload) : publishedWhen moment (acts ++ [a]) = publishedWhen moment acts := by
  rw [publishedWhen_concat]
  cases a with
  | publish payload => exact absurd rfl (h payload)
  | _ => exact List.append_nil _

/-- An act that neither attaches nor detaches a client nor gives it anything leaves the records as they are. -/
theorem Records.kept {max : Int} {client : σ} {acts : List (Act σ π)} {d : Desk σ π}
    (h : Records max client acts d) {a : Act σ π} (hattaches : a.attaches client = none)
    (hgives : ∀ nth, publishedWhen (receives max client nth) (acts ++ [a]) =
      publishedWhen (receives max client nth) acts) : Records max client (acts ++ [a]) d := by
  refine ⟨?_, ?_, fun nth => (h.given nth).trans (hgives nth).symm, h.bounded⟩
  · rw [connects_concat, hattaches, h.length]
    rfl
  · intro nth
    rw [registered_concat, hattaches]
    exact h.current nth

private theorem Records.connect {max : Int} {client : σ} {acts : List (Act σ π)} {d : Desk σ π}
    (h : Records max client acts d) :
    Records max client (acts ++ [.connect client])
      ⟨d.queues ++ [⟨client, [], []⟩], some d.queues.length⟩ := by
  have hattaches : (Act.connect client : Act σ π).attaches client = some true := by simp [Act.attaches]
  refine ⟨?_, ?_, ?_, ?_⟩
  · rw [connects_concat, if_pos hattaches, List.length_append, h.length]
    rfl
  · intro nth
    rw [registered_concat, hattaches, h.length]
    simp
  · intro nth
    rw [publishedWhen_silent (by simp), ← h.given nth]
    rcases Nat.lt_trichotomy nth d.queues.length with hlt | heq | hgt
    · rw [List.getElem?_append_left hlt]
    · rw [heq, List.getElem?_concat_length, List.getElem?_eq_none (Nat.le_refl _)]
      rfl
    · rw [List.getElem?_eq_none (by simp; omega), List.getElem?_eq_none (by omega)]
  · intro hmax nth q hq
    rcases List.mem_append.mp (List.mem_of_getElem? hq) with hmem | hmem
    · obtain ⟨i, hi⟩ := List.getElem?_of_mem hmem
      exact h.bounded hmax i q hi
    · rw [List.mem_singleton.mp hmem]
      exact Int.le_of_lt hmax

private theorem Records.disconnect {max : Int} {client : σ} {acts : List (Act σ π)} {d : Desk σ π}
    (h : Records max client acts d) :
    Records max client (acts ++ [.disconnect client]) { d with current := none } := by
  have hattaches : (Act.disconnect client : Act σ π).attaches client = some false := by simp [Act.attaches]
  refine ⟨?_, ?_, ?_, h.bounded⟩
  · rw [connects_concat, hattaches, h.length]
    rfl
  · intro nth
    rw [registered_concat, hattaches]
    simp
  · intro nth
    rw [publishedWhen_silent (by simp)]
    exact h.given nth

private theorem Records.publish {max : Int} {client : σ} {acts : List (Act σ π)} {d : Desk σ π}
    (h : Records max client acts d) (hd : (run max acts).queuesOf client = d.queues) (payload : π) :
    Records max client (acts ++ [.publish payload]) (d.put max payload) := by
  have hattaches : (Act.publish payload : Act σ π).attaches client = none := rfl
  -- Only the registered queue can be given the payload.
  have hother : ∀ nth, d.current ≠ some nth → receives max client nth acts = false := by
    intro nth hnth
    have hnot : registered client nth acts = false := by
      rw [← Bool.not_eq_true, ← h.current nth]
      exact hnth
    rw [receives, hnot, Bool.false_and]
  have hlength : connects client (acts ++ [.publish payload]) = connects client acts := by
    rw [connects_concat, hattaches]
    rfl
  have hcurrent : ∀ nth, registered client nth (acts ++ [.publish payload]) = registered client nth acts := by
    intro nth
    rw [registered_concat, hattaches]
  have hkept (hnone : ∀ nth, receives max client nth acts = false) :
      Records max client (acts ++ [.publish payload]) d :=
    h.kept hattaches fun nth => by simp [publishedWhen_concat, hnone nth]
  unfold Desk.put
  split
  · rename_i hnone
    exact hkept fun nth => hother nth (by simp [hnone])
  · rename_i m hsome
    obtain ⟨q, hq⟩ : ∃ q, d.queues[m]? = some q := ⟨_, List.getElem?_eq_getElem (h.current_lt hsome)⟩
    have hroom : receives max client m acts = !full max q.items.length := by
      rw [receives, (h.current m).mp hsome, hd, hq]
      rfl
    rw [hq, Option.elim_some]
    split
    · rename_i hfull
      apply hkept
      intro nth
      by_cases hnth : nth = m
      · rw [hnth, hroom, hfull]
        rfl
      · exact hother nth fun heq => hnth (Option.some.inj (heq.symm.trans hsome))
    · rename_i hfree
      rw [Bool.not_eq_true] at hfree
      refine ⟨?_, fun nth => hcurrent nth ▸ h.current nth, ?_, ?_⟩
      · rw [List.length_modify, hlength, h.length]
      · intro nth
        rw [publishedWhen_concat, ← h.given nth, List.getElem?_modify]
        by_cases hnth : m = nth
        · subst hnth
          simp [hq, hroom, hfree]
        · have hnot := hother nth fun heq => hnth (Option.some.inj (hsome.symm.trans heq))
          simp [hnth, hnot]
      · intro hmax nth q' hq'
        rw [List.getElem?_modify] at hq'
        by_cases hnth : m = nth
        · subst hnth
          simp only [hq, if_true, Option.map_eq_map, Option.map_some, Option.some.injEq] at hq'
          subst hq'
          simp only [full, Bool.and_eq_false_iff, decide_eq_false_iff_not] at hfree
          simp only [Outbound.put, List.length_append, List.length_singleton]
          omega
        · simp only [hnth, if_false, Option.map_eq_map, Option.map_id_fun', id_eq] at hq'
          exact h.bounded hmax nth q' hq'

private theorem Records.pumped {max : Int} {client : σ} {acts : List (Act σ π)} {d : Desk σ π}
    (h : Records max client acts d) (m : Nat) :
    Records max client acts { d with queues := d.queues.modify m Outbound.pumped } := by
  refine ⟨?_, h.current, ?_, ?_⟩
  · rw [List.length_modify]
    exact h.length
  · intro nth
    rw [← h.given nth, List.getElem?_modify]
    by_cases hnth : m = nth
    · subst hnth
      cases d.queues[m]? with
      | none => rfl
      | some q => simp
    · simp [hnth]
  · intro hmax nth q hq
    rw [List.getElem?_modify] at hq
    by_cases hnth : m = nth
    · subst hnth
      simp only [if_true, Option.map_eq_map, Option.map_eq_some_iff] at hq
      obtain ⟨q', hq', rfl⟩ := hq
      have hbound := h.bounded hmax m q' hq'
      have hless := q'.length_pumped
      omega
    · simp only [hnth, if_false, Option.map_eq_map, Option.map_id_fun', id_eq] at hq
      exact h.bounded hmax nth q hq

private theorem Records.perform {max : Int} {client : σ} {acts : List (Act σ π)} {d : Desk σ π}
    (h : Records max client acts d) (hd : (run max acts).queuesOf client = d.queues) (a : Act σ π) :
    Records max client (acts ++ [a]) (d.perform max client a) := by
  cases a with
  | publish payload => exact h.publish hd payload
  | connect c =>
    rw [Desk.perform]
    split
    · rename_i hc
      subst hc
      exact h.connect
    · rename_i hc
      exact h.kept (by simp [Act.attaches, hc]) fun _ => publishedWhen_silent (by simp)
  | disconnect c =>
    rw [Desk.perform]
    split
    · rename_i hc
      subst hc
      exact h.disconnect
    · rename_i hc
      exact h.kept (by simp [Act.attaches, hc]) fun _ => publishedWhen_silent (by simp)
  | pump c m =>
    rw [Desk.perform]
    split
    · exact (h.pumped m).kept rfl fun _ => publishedWhen_silent (by simp)
    · exact h.kept rfl fun _ => publishedWhen_silent (by simp)

private theorem run_records (max : Int) (acts : List (Act σ π)) (client : σ) :
    Records max client acts ((run max acts).desk client) := by
  induction acts using List.reverseRecOn with
  | nil =>
    refine ⟨rfl, ?_, ?_, ?_⟩
    · intro nth
      simp [run, new, desk, registered]
    · intro nth
      rfl
    · intro hmax nth q hq
      cases hq
  | append_singleton acts a ih =>
    obtain ⟨hmax, hsound, -⟩ := run_desk max acts client
    rw [run_concat, (perform_spec hsound a).2.2, hmax]
    exact ih.perform rfl a

/-- The queues that a client was ever handed have been given exactly what was published while they were
registered, in that order, but for the moments at which they were full. None holds more than its limit, and
without a limit nothing is left out. Nobody else has a part in what is in them. -/
theorem queues_deliver_in_order (max : Int) (acts : List (Act σ π)) (client : σ) :
    ((run max acts).queuesOf client).map (fun q => q.taken ++ q.items) =
        (List.range (connects client acts)).map (fun nth => publishedWhen (receives max client nth) acts) ∧
      (0 < max → ∀ q ∈ (run max acts).queuesOf client, (q.items.length : Int) ≤ max) ∧
      (max ≤ 0 → ∀ nth,
        publishedWhen (receives max client nth) acts = publishedWhen (registered client nth) acts) ∧
      ∀ acts' : List (Act σ π), acts'.filter (Act.concerns client) = acts.filter (Act.concerns client) →
        (run max acts').queuesOf client = (run max acts).queuesOf client := by
  have hrecords := run_records max acts client
  refine ⟨?_, ?_, ?_, fun acts' h => queuesOf_run_congr h⟩
  · apply List.ext_getElem?
    intro nth
    have hlength : ((run max acts).queuesOf client).length = connects client acts := hrecords.length
    by_cases hlt : nth < connects client acts
    · obtain ⟨q, hq⟩ : ∃ q, ((run max acts).queuesOf client)[nth]? = some q :=
        ⟨_, List.getElem?_eq_getElem (hlength ▸ hlt)⟩
      have hgiven : (((run max acts).queuesOf client)[nth]?).elim [] Outbound.given =
        publishedWhen (receives max client nth) acts := hrecords.given nth
      rw [hq] at hgiven
      rw [List.getElem?_map, List.getElem?_map, hq, List.getElem?_range hlt, Option.map_some,
        Option.map_some, ← hgiven]
      rfl
    · rw [List.getElem?_eq_none (by simp [hlength]; omega), List.getElem?_eq_none (by simp; omega)]
  · intro hmax q hq
    obtain ⟨nth, hnth⟩ := List.getElem?_of_mem hq
    exact hrecords.bounded hmax nth q hnth
  · intro hmax nth
    have hfree : ∀ length, full max length = false := by
      intro length
      have hnot : ¬ 0 < max := by omega
      simp [full, hnot]
    congr 1
    funext before
    rw [receives, hfree, Bool.not_false, Bool.and_true]

/-- A history in which one client connects twice while another one never takes anything. -/
def crowd : List (Act String Nat) :=
  [.connect "ada", .connect "bob", .publish 1, .publish 2, .pump "ada" 0, .publish 3, .connect "ada",
    .publish 4, .disconnect "bob", .pump "ada" 0, .publish 5]

theorem crowd_delivers_in_order :
    ((run 1 crowd).queuesOf "ada").map (fun q => q.taken ++ q.items) = [[1, 3], [4]] ∧
      (∀ q ∈ (run 1 crowd).queuesOf "ada", (q.items.length : Int) ≤ 1) ∧
      publishedWhen (receives 0 "ada" 0) crowd = publishedWhen (registered "ada" 0) crowd ∧
      (run 1 (crowd.filter (Act.concerns "ada"))).queuesOf "ada" = (run 1 crowd).queuesOf "ada" := by
  obtain ⟨hgiven, hbound, -, hothers⟩ := queues_deliver_in_order 1 crowd "ada"
  have hall := (queues_deliver_in_order 0 crowd "ada").2.2.1
  exact ⟨hgiven.trans (by decide), hbound (by decide), hall (by decide) 0, hothers _ (by simp)⟩

end Hub

end SpriteStage
