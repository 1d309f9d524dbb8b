import SpriteStage.Proofs.Conservation
/-!
# Which pairs a collision pass swaps

A pass swaps a matching: of the pairs that overlap now and did not at the pass before, it takes
each that shares no actor with one it has taken already. All of this holds for any notion of
overlap.
-/
namespace SpriteStage

variable {α : Type}

namespace Pair

/-- The order of pairs: by the smaller id, then by the greater. -/
def Before (p q : Pair) : Prop := p.1 < q.1 ∨ p.1 = q.1 ∧ p.2 < q.2

def Shares (p q : Pair) : Prop := p.1 = q.1 ∨ p.1 = q.2 ∨ p.2 = q.1 ∨ p.2 = q.2

def Has (p : Pair) (actor : Int) : Prop := actor = p.1 ∨ actor = p.2

private theorem Has.shares {p q : Pair} {actor : Int} (hp : p.Has actor) (hq : q.Has actor) : p.Shares q := by
  rcases hp with rfl | rfl
  · rcases hq with h | h
    · exact .inl h
    · exact .inr (.inl h)
  · rcases hq with h | h
    · exact .inr (.inr (.inl h))
    · exact .inr (.inr (.inr h))

end Pair

namespace Collision

/-! ## The matching -/

private theorem matching_sublist (pairs : List Pair) (used : List Int) : (matching pairs used).Sublist pairs := by
  induction pairs generalizing used with
  | nil => exact List.Sublist.refl []
  | cons pair rest ih =>
    obtain ⟨a, b⟩ := pair
    unfold matching
    split
    · exact (ih used).cons _
    · exact (ih _).cons_cons _

private theorem matching_unused (pairs : List Pair) (used : List Int) :
    ∀ p ∈ matching pairs used, p.1 ∉ used ∧ p.2 ∉ used := by
  induction pairs generalizing used with
  | nil => exact List.forall_mem_nil _
  | cons pair rest ih =>
    obtain ⟨a, b⟩ := pair
    unfold matching
    split
    · exact ih used
    · rename_i hfree
      simp only [List.contains_eq_mem, Bool.or_eq_true, decide_eq_true_eq, not_or] at hfree
      refine List.forall_mem_cons.mpr ⟨hfree, fun p hp => ?_⟩
      obtain ⟨hfst, hsnd⟩ := ih _ p hp
      exact ⟨fun hmem => hfst (by simp [hmem]), fun hmem => hsnd (by simp [hmem])⟩

private theorem matching_apart (pairs : List Pair) (used : List Int) :
    (matching pairs used).Pairwise fun p q => ¬ p.Shares q := by
  induction pairs generalizing used with
  | nil => exact .nil
  | cons pair rest ih =>
    obtain ⟨a, b⟩ := pair
    unfold matching
    split
    · exact ih used
    · refine List.pairwise_cons.mpr ⟨fun q hq => ?_, ih _⟩
      obtain ⟨hfst, hsnd⟩ := matching_unused rest _ q hq
      simp only [List.mem_cons, not_or] at hfst hsnd
      rintro (heq | heq | heq | heq)
      · exact hfst.1 heq.symm
      · exact hsnd.1 heq.symm
      · exact hfst.2.1 heq.symm
      · exact hsnd.2.1 heq.symm

private theorem matching_leftOut {pairs : List Pair} (h : pairs.Pairwise Pair.Before) (used : List Int) :
    ∀ p ∈ pairs, p ∉ matching pairs used →
      (p.1 ∈ used ∨ p.2 ∈ used) ∨ ∃ q ∈ matching pairs used, q.Before p ∧ q.Shares p := by
  induction pairs generalizing used with
  | nil => exact List.forall_mem_nil _
  | cons pair rest ih =>
    obtain ⟨a, b⟩ := pair
    obtain ⟨hfirst, hrest⟩ := List.pairwise_cons.mp h
    unfold matching
    split
    · rename_i htaken
      simp only [List.contains_eq_mem, Bool.or_eq_true, decide_eq_true_eq] at htaken
      exact List.forall_mem_cons.mpr ⟨fun _ => .inl htaken, ih hrest used⟩
    · refine List.forall_mem_cons.mpr ⟨fun hout => absurd List.mem_cons_self hout, ?_⟩
      intro p hp hout
      rcases ih hrest _ p hp (fun hmem => hout (List.mem_cons_of_mem _ hmem)) with hused | ⟨q, hq, hblocks⟩
      · -- The actor was used before, or it is one of the pair that has just been taken.
        simp only [List.mem_cons] at hused
        by_cases hbefore : p.1 ∈ used ∨ p.2 ∈ used
        · exact .inl hbefore
        · refine .inr ⟨(a, b), List.mem_cons_self, hfirst p hp, ?_⟩
          unfold Pair.Shares
          tauto
      · exact .inr ⟨q, List.mem_cons_of_mem _ hq, hblocks⟩

/-! ## What overlaps -/

/-- A notion of overlap that tells of any two records whether they do. -/
def decided (hit : Actor α → Actor α → Bool) (a b : Actor α) : Except Error Bool := .ok (hit a b)

def Overlap (hit : Actor α → Actor α → Bool) (st : Store α) (p : Pair) : Prop :=
  p.1 < p.2 ∧ ∃ a b, st.get? p.1 = some a ∧ st.get? p.2 = some b ∧ hit a b = true

def pairsOf (hit : Actor α → Actor α → Bool) : List (Actor α) → List Pair
  | [] => []
  | a :: rest => (rest.filter (hit a)).map (fun b => (a.id, b.id)) ++ pairsOf hit rest

private theorem hits_decided (hit : Actor α → Bool) (actors : List (Actor α)) :
    hits (fun b => .ok (hit b)) actors = .ok (actors.filter hit) := by
  induction actors with
  | nil => rfl
  | cons b rest ih =>
    rw [hits, ih, List.filter_cons]
    rfl

private theorem overlapping_decided (hit : Actor α → Actor α → Bool) (actors : List (Actor α)) :
    overlapping (decided hit) actors = .ok (pairsOf hit actors) := by
  induction actors with
  | nil => rfl
  | cons a rest ih =>
    have hfirst : hits (decided hit a) rest = .ok (rest.filter (hit a)) := hits_decided (hit a) rest
    rw [overlapping, hfirst, ih]
    rfl

private theorem overlapping_congr {hit hit' : Actor α → Actor α → Except Error Bool} {actors : List (Actor α)}
    (h : ∀ a ∈ actors, ∀ b ∈ actors, hit a b = hit' a b) :
    overlapping hit actors = overlapping hit' actors := by
  have hhits : ∀ (a : Actor α) (l : List (Actor α)), (∀ b ∈ l, hit a b = hit' a b) →
      hits (hit a) l = hits (hit' a) l := by
    intro a l hl
    induction l with
    | nil => rfl
    | cons b l ih =>
      obtain ⟨hb, hl⟩ := List.forall_mem_cons.mp hl
      rw [hits, hits, hb, ih hl]
  induction actors with
  | nil => rfl
  | cons a rest ih =>
    have hfirst := hhits a rest fun b hb => h a List.mem_cons_self b (List.mem_cons_of_mem _ hb)
    have hrest := ih fun b hb c hc => h b (List.mem_cons_of_mem _ hb) c (List.mem_cons_of_mem _ hc)
    rw [overlapping, overlapping, hfirst, hrest]

private theorem mem_pairsOf {hit : Actor α → Actor α → Bool} {actors : List (Actor α)}
    (h : (actors.map (·.id)).Pairwise (· < ·)) {p : Pair} :
    p ∈ pairsOf hit actors ↔
      ∃ a ∈ actors, ∃ b ∈ actors, a.id < b.id ∧ hit a b = true ∧ p = (a.id, b.id) := by
  induction actors with
  | nil => simp [pairsOf]
  | cons a rest ih =>
    rw [List.map_cons, List.pairwise_cons] at h
    have hlater : ∀ b ∈ rest, a.id < b.id := fun b hb => h.1 b.id (List.mem_map_of_mem hb)
    rw [pairsOf, List.mem_append, ih h.2]
    constructor
    · rintro (hp | ⟨b, hb, c, hc, hrest⟩)
      · obtain ⟨b, hb, rfl⟩ := List.mem_map.mp hp
        obtain ⟨hmem, hhit⟩ := List.mem_filter.mp hb
        exact ⟨a, List.mem_cons_self, b, List.mem_cons_of_mem _ hmem, hlater b hmem, hhit, rfl⟩
      · exact ⟨b, List.mem_cons_of_mem _ hb, c, List.mem_cons_of_mem _ hc, hrest⟩
    · rintro ⟨b, hfst, c, hsnd, hlt, hhit, rfl⟩
      rcases List.mem_cons.mp hfst with rfl | hb
      · rcases List.mem_cons.mp hsnd with rfl | hc
        · omega
        · exact .inl (List.mem_map.mpr ⟨c, List.mem_filter.mpr ⟨hc, hhit⟩, rfl⟩)
      · rcases List.mem_cons.mp hsnd with rfl | hc
        · have hlt' := hlater b hb
          omega
        · exact .inr ⟨b, hb, c, hc, hlt, hhit, rfl⟩

private theorem pairsOf_sorted (hit : Actor α → Actor α → Bool) {actors : List (Actor α)}
    (h : (actors.map (·.id)).Pairwise (· < ·)) : (pairsOf hit actors).Pairwise Pair.Before := by
  induction actors with
  | nil => exact .nil
  | cons a rest ih =>
    rw [List.map_cons, List.pairwise_cons] at h
    refine List.pairwise_append.mpr ⟨?_, ih h.2, ?_⟩
    · rw [List.pairwise_map]
      have hrest : rest.Pairwise fun b c => b.id < c.id := List.pairwise_map.mp h.2
      exact (hrest.filter _).imp fun hlt => .inr ⟨rfl, hlt⟩
    · intro p hp q hq
      obtain ⟨b, -, rfl⟩ := List.mem_map.mp hp
      obtain ⟨c, hc, d, -, -, -, rfl⟩ := (mem_pairsOf h.2).mp hq
      exact .inl (h.1 c.id (List.mem_map_of_mem hc))

private theorem mem_pairsOf_iff {hit : Actor α → Actor α → Bool} {st : Store α} (h : st.Ascending) {p : Pair} :
    p ∈ pairsOf hit st.actors ↔ Overlap hit st p := by
  rw [mem_pairsOf h.sorted]
  constructor
  · rintro ⟨a, ha, b, hb, hlt, hhit, rfl⟩
    exact ⟨hlt, a, b, Store.get?_of_mem h ha, Store.get?_of_mem h hb, hhit⟩
  · rintro ⟨hlt, a, b, ha, hb, hhit⟩
    rw [← Store.get?_id ha, ← Store.get?_id hb] at hlt
    refine ⟨a, Store.mem_of_get? ha, b, Store.mem_of_get? hb, hlt, hhit, ?_⟩
    rw [Store.get?_id ha, Store.get?_id hb]

/-! ## The swaps -/

/-- What is told of the swap of a pair: the program that each had is now that of the other. -/
def toldOf (st : Store α) (p : Pair) : List (Event α) :=
  [⟨p.1, .wrote { program := st.program? p.2 } none⟩, ⟨p.2, .wrote { program := st.program? p.1 } none⟩]

/-- Some pairs have exchanged their programs, and nothing else has changed. -/
structure Exchanged (st : Store α) (pairs : List Pair) (st' : Store α) : Prop where
  swapped : ∀ p ∈ pairs, st'.program? p.1 = st.program? p.2 ∧ st'.program? p.2 = st.program? p.1
  others : ∀ id, (∀ p ∈ pairs, ¬ p.Has id) → st'.program? id = st.program? id
  bodies : Store.SameBodies st st'

variable [Scalar α]

private theorem swap_exchanges {room : Nat} (s : Settings α) {st : Store α} (h : st.Within (·.Portable room))
    {p : Pair} (hne : p.1 ≠ p.2) (hfst : p.1 ∈ st.ids) (hsnd : p.2 ∈ st.ids) :
    (swap room s st p).result = .ok () ∧ Signal.events (swap room s st p).out = toldOf st p ∧
      Exchanged st [p] (swap room s st p).store := by
  have hok := (swap_isOk s h hfst hsnd).1
  have hpermuted := swap_permuted hok
  refine ⟨hok, ?_, ⟨?_, ?_, swap_bodies room s st p⟩⟩
  · obtain ⟨a, ha⟩ := Option.isSome_iff_exists.mp (Store.isSome_get?.mpr hfst)
    obtain ⟨b, hb⟩ := Option.isSome_iff_exists.mp (Store.isSome_get?.mpr hsnd)
    have hb' : (st.replace { a with program := b.program }).get? p.2 = some b := by
      rw [Store.get?_replace, if_neg, hb]
      rw [Store.get?_id ha]
      exact hne.symm
    have hfirst := Store.hand_portable s ha (h b (Store.mem_of_get? hb))
    have hsecond := Store.hand_portable s hb' (h a (Store.mem_of_get? ha))
    simp only [swap, Store.get_of_get? ha, Store.get_of_get? hb, Store.Written.andThen, hfirst, hsecond,
      toldOf, Store.program?, ha, hb]
    rfl
  · intro q hq
    rw [List.mem_singleton.mp hq]
    exact ⟨by rw [hpermuted.program, Equiv.swap_apply_left],
      by rw [hpermuted.program, Equiv.swap_apply_right]⟩
  · intro id hid
    have hout := hid p (List.mem_singleton_self p)
    simp only [Pair.Has, not_or] at hout
    rw [hpermuted.program, Equiv.swap_apply_of_ne_of_ne hout.1 hout.2]

/-- Swaps of pairs that share no actor do not disturb each other. -/
theorem swapAll_exchanges {room : Nat} (s : Settings α) {st : Store α} (h : st.Within (·.Portable room))
    {pairs : List Pair} (hpairs : ∀ p ∈ pairs, p.1 ≠ p.2 ∧ p.1 ∈ st.ids ∧ p.2 ∈ st.ids)
    (hapart : pairs.Pairwise fun p q => ¬ p.Shares q) :
    (swapAll room s st pairs).result = .ok () ∧
      Signal.events (swapAll room s st pairs).out = pairs.flatMap (toldOf st) ∧
      Exchanged st pairs (swapAll room s st pairs).store := by
  induction pairs generalizing st with
  | nil => exact ⟨rfl, rfl, by simp, fun _ _ => rfl, .refl st⟩
  | cons p rest ih =>
    obtain ⟨⟨hne, hfst, hsnd⟩, hrest⟩ := List.forall_mem_cons.mp hpairs
    obtain ⟨hfirst, hapart⟩ := List.pairwise_cons.mp hapart
    obtain ⟨hok, hevents, hdone⟩ := swap_exchanges s h hne hfst hsnd
    have hids := hdone.bodies.ids
    obtain ⟨hoks, hmore, hrests⟩ := ih ((swap_deals room s h p).within h)
      (fun q hq => by rw [hids]; exact hrest q hq) hapart
    -- The other pairs find what was there before the first swap.
    have hsame : ∀ q ∈ rest, ∀ id, q.Has id → (swap room s st p).store.program? id = st.program? id := by
      intro q hq id hid
      apply hdone.others
      intro x hx hhas
      rw [List.mem_singleton.mp hx] at hhas
      exact hfirst q hq (hhas.shares hid)
    have htold : rest.flatMap (toldOf (swap room s st p).store) = rest.flatMap (toldOf st) := by
      apply List.flatMap_congr
      intro q hq
      simp only [toldOf, hsame q hq q.1 (.inl rfl), hsame q hq q.2 (.inr rfl)]
    have hstep : swapAll room s st (p :: rest) =
        { swapAll room s (swap room s st p).store rest with
          out := (swap room s st p).out ++ (swapAll room s (swap room s st p).store rest).out } := by
      simp only [swapAll, Store.Written.andThen, hok]
    rw [hstep]
    refine ⟨hoks, ?_, ⟨?_, ?_, hdone.bodies.trans hrests.bodies⟩⟩
    · simp only [Signal.events, List.filterMap_append] at hevents hmore ⊢
      rw [hevents, hmore, htold, List.flatMap_cons]
    · refine List.forall_mem_cons.mpr ⟨?_, fun q hq => ?_⟩
      · have hlater : ∀ id, p.Has id → (swapAll room s (swap room s st p).store rest).store.program? id =
            (swap room s st p).store.program? id := by
          intro id hid
          apply hrests.others
          intro q hq hhas
          exact hfirst q hq (hid.shares hhas)
        rw [hlater p.1 (.inl rfl), hlater p.2 (.inr rfl)]
        exact hdone.swapped p (List.mem_singleton_self p)
      · rw [(hrests.swapped q hq).1, (hrests.swapped q hq).2, hsame q hq q.1 (.inl rfl),
          hsame q hq q.2 (.inr rfl)]
        exact ⟨rfl, rfl⟩
    · intro id hid
      obtain ⟨hnot, hnots⟩ := List.forall_mem_cons.mp hid
      rw [hrests.others id hnots]
      apply hdone.others
      intro q hq
      rw [List.mem_singleton.mp hq]
      exact hnot

/-! ## One pass -/

/-- What a pass does that goes through: it swaps the greatest matching, in ascending order, of the pairs that
begin to overlap, and remembers all that overlap. -/
structure Matches (hit : Actor α → Actor α → Bool) (st : Store α) (touching swapped : List Pair)
    (done : Pass α) : Prop where
  result : done.result = .ok swapped
  ascending : swapped.Pairwise Pair.Before
  apart : swapped.Pairwise fun p q => ¬ p.Shares q
  begin : ∀ p ∈ swapped, Overlap hit st p ∧ p ∉ touching
  leftOut : ∀ p, Overlap hit st p → p ∉ touching → p ∉ swapped → ∃ q ∈ swapped, q.Before p ∧ q.Shares p
  exchanged : Exchanged st swapped done.store
  events : Signal.events done.signals = swapped.flatMap (toldOf st)
  touching : ∀ p, p ∈ done.touching ↔ Overlap hit st p

def taken (hit : Actor α → Actor α → Bool) (st : Store α) (touching : List Pair) : List Pair :=
  matching ((pairsOf hit st.actors).filter (!touching.contains ·)) []

private theorem passWith_decided (hit : Actor α → Actor α → Bool) (room : Nat) (s : Settings α) (st : Store α)
    (touching : List Pair) :
    passWith (decided hit) room s st touching =
      { store := (swapAll room s st (taken hit st touching)).store
        touching := pairsOf hit st.actors
        signals := (swapAll room s st (taken hit st touching)).out
        result := (swapAll room s st (taken hit st touching)).result.map fun _ => taken hit st touching } := by
  simp only [passWith, overlapping_decided]
  rfl

omit [Scalar α] in
theorem mem_begin {hit : Actor α → Actor α → Bool} {st : Store α} (h : st.Ascending) {touching : List Pair}
    {p : Pair} : p ∈ (pairsOf hit st.actors).filter (!touching.contains ·) ↔
      Overlap hit st p ∧ p ∉ touching := by
  rw [List.mem_filter, mem_pairsOf_iff h]
  simp

omit [Scalar α] in
theorem taken_begin {hit : Actor α → Actor α → Bool} {st : Store α} (h : st.Ascending)
    {touching : List Pair} : ∀ p ∈ taken hit st touching, Overlap hit st p ∧ p ∉ touching :=
  fun _ hp => (mem_begin h).mp ((matching_sublist _ _).subset hp)

private theorem passWith_matches (hit : Actor α → Actor α → Bool) {room : Nat} (s : Settings α) {st : Store α}
    (hasc : st.Ascending) (h : st.Within (·.Portable room)) (touching : List Pair) :
    Matches hit st touching (taken hit st touching) (passWith (decided hit) room s st touching) := by
  have hsorted : ((pairsOf hit st.actors).filter (!touching.contains ·)).Pairwise Pair.Before :=
    (pairsOf_sorted hit hasc.sorted).filter _
  have hpairs : ∀ p ∈ taken hit st touching, p.1 ≠ p.2 ∧ p.1 ∈ st.ids ∧ p.2 ∈ st.ids := by
    intro p hp
    obtain ⟨hlt, a, b, ha, hb, -⟩ := (taken_begin hasc p hp).1
    exact ⟨Int.ne_of_lt hlt, Store.isSome_get?.mp (by rw [ha]; rfl), Store.isSome_get?.mp (by rw [hb]; rfl)⟩
  obtain ⟨hok, hevents, hexchanged⟩ := swapAll_exchanges s h hpairs (matching_apart _ _)
  rw [passWith_decided]
  refine ⟨by rw [hok]; rfl, hsorted.sublist (matching_sublist _ _), matching_apart _ _, taken_begin hasc, ?_,
    hexchanged, hevents, fun p => mem_pairsOf_iff hasc⟩
  intro p hoverlap hnew hout
  rcases matching_leftOut hsorted [] p ((mem_begin hasc).mpr ⟨hoverlap, hnew⟩) hout with hused | hblocked
  · simp at hused
  · exact hblocked

/-! ## Passes one after the other -/

/-- A stage as collision passes see it: the actors, what the last pass remembers, and the actors as they were at
the last pass, if there was one since the memory was cleared. -/
inductive History (hit : Actor α → Actor α → Bool) (room : Nat) (s : Settings α) :
    Store α → List Pair → Option (Store α) → Prop where
  | start {st : Store α} (ascending : st.Ascending) : History hit room s st [] none
  | move {st st' : Store α} {touching : List Pair} {last : Option (Store α)}
      (before : History hit room s st touching last) (ascending : st'.Ascending) :
      History hit room s st' touching last
  | reset {st : Store α} {touching : List Pair} {last : Option (Store α)}
      (before : History hit room s st touching last) : History hit room s st [] none
  | pass {st : Store α} {touching : List Pair} {last : Option (Store α)}
      (before : History hit room s st touching last) :
      History hit room s (passWith (decided hit) room s st touching).store
        (passWith (decided hit) room s st touching).touching (some st)

namespace History

variable {hit : Actor α → Actor α → Bool} {room : Nat} {s : Settings α} {st : Store α} {touching : List Pair}
  {last : Option (Store α)}

private theorem ascending (h : History hit room s st touching last) : st.Ascending := by
  induction h with
  | start ascending => exact ascending
  | move _ ascending _ => exact ascending
  | reset _ ih => exact ih
  | @pass st touching _ _ ih =>
    have hbodies := passWith_bodies (decided hit) room s st touching
    exact ih.congr hbodies.ids hbodies.nextId

private theorem mem_touching (h : History hit room s st touching last) (p : Pair) :
    p ∈ touching ↔ ∃ earlier, last = some earlier ∧ Overlap hit earlier p := by
  induction h with
  | start _ => simp
  | move _ _ ih => exact ih
  | reset _ _ => simp
  | pass before _ =>
    rw [passWith_decided]
    simp only [Option.some.injEq, exists_eq_left']
    exact mem_pairsOf_iff before.ascending

end History

/-- A notion of overlap that does not look at programs. -/
def Bodily (hit : Actor α → Actor α → Bool) : Prop := ∀ a b, hit a b = hit a.body b.body

omit [Scalar α] in
theorem pairsOf_bodies {hit : Actor α → Actor α → Bool} (hbody : Bodily hit) {actors actors' : List (Actor α)}
    (h : actors'.map Actor.body = actors.map Actor.body) : pairsOf hit actors' = pairsOf hit actors := by
  induction actors generalizing actors' with
  | nil =>
    rw [List.map_eq_nil_iff.mp h]
  | cons a rest ih =>
    obtain ⟨a', rest', rfl, ha, hrest⟩ := List.map_eq_cons_iff.mp h
    have hid : a'.body.id = a.body.id := congrArg Actor.id ha
    have hid' : a'.id = a.id := hid
    have hhits : ∀ l : List (Actor α), l.filter (hit a) = l.filter fun b => hit a.body b.body :=
      fun l => List.filter_congr fun b _ => by rw [hbody]
    have hhits' : ∀ l : List (Actor α), l.filter (hit a') = l.filter fun b => hit a.body b.body :=
      fun l => List.filter_congr fun b _ => by rw [hbody, ha]
    have hids : ∀ l : List (Actor α), (l.filter fun b => hit a.body b.body).map (fun b => (a.id, b.id)) =
        ((l.map Actor.body).filter (hit a.body)).map fun b => (a.id, b.id) := by
      intro l
      rw [List.filter_map, List.map_map]
      rfl
    rw [pairsOf, pairsOf, ih hrest, hhits, hhits', hid', hids, hids, hrest]

private theorem passWith_again {hit : Actor α → Actor α → Bool} (hbody : Bodily hit) (room : Nat) (s : Settings α)
    {st : Store α} (hasc : st.Ascending) (touching : List Pair) :
    passWith (decided hit) room s (passWith (decided hit) room s st touching).store
        (passWith (decided hit) room s st touching).touching =
      { passWith (decided hit) room s st touching with signals := [], result := .ok [] } := by
  have hbodies := (passWith_bodies (decided hit) room s st touching).map_body hasc
  have hsame := pairsOf_bodies hbody hbodies
  have htouching : (passWith (decided hit) room s st touching).touching = pairsOf hit st.actors := by
    rw [passWith_decided]
  generalize passWith (decided hit) room s st touching = done at hsame htouching
  have hnone : taken hit done.store done.touching = [] := by
    have hfilter : (pairsOf hit st.actors).filter (!(pairsOf hit st.actors).contains ·) = [] := by
      simp
    rw [taken, hsame, htouching, hfilter]
    rfl
  rw [passWith_decided, hnone, hsame, ← htouching]
  rfl

/-- For any notion of overlap, any actors and any memory, a pass goes through if every program can be handed
over, and then it swaps the greatest matching of the pairs that begin to overlap. Whatever has happened before,
the pairs that a pass swaps overlap now and did not at the pass before, unless there was none since the memory was
cleared. A pass that follows at once swaps nobody and changes nothing. -/
theorem pass_swaps_matching (hit : Actor α → Actor α → Bool) (room : Nat) (s : Settings α) :
    (∀ (st : Store α) (touching : List Pair), st.Ascending → st.Within (·.Portable room) →
      ∃ swapped, Matches hit st touching swapped (passWith (decided hit) room s st touching)) ∧
    (∀ (st : Store α) (touching : List Pair) (last : Option (Store α)), History hit room s st touching last →
      ∀ swapped, (passWith (decided hit) room s st touching).result = .ok swapped → ∀ p ∈ swapped,
        Overlap hit st p ∧ ∀ earlier, last = some earlier → ¬ Overlap hit earlier p) ∧
    (Bodily hit → ∀ (st : Store α) (touching : List Pair), st.Ascending →
      passWith (decided hit) room s (passWith (decided hit) room s st touching).store
          (passWith (decided hit) room s st touching).touching =
        { passWith (decided hit) room s st touching with signals := [], result := .ok [] }) := by
  refine ⟨fun st touching hasc h => ⟨_, passWith_matches hit s hasc h touching⟩, ?_,
    fun hbody st touching hasc => passWith_again hbody room s hasc touching⟩
  intro st touching last history swapped hresult p hp
  have htaken : swapped = taken hit st touching := by
    rw [passWith_decided] at hresult
    cases hdone : (swapAll room s st (taken hit st touching)).result with
    | error cause =>
      rw [hdone] at hresult
      cases hresult
    | ok done =>
      rw [hdone] at hresult
      exact (Except.ok.inj hresult).symm
  rw [htaken] at hp
  obtain ⟨hoverlap, hnew⟩ := taken_begin history.ascending p hp
  refine ⟨hoverlap, fun earlier hlast hbefore => hnew ?_⟩
  exact (history.mem_touching p).mpr ⟨earlier, hlast, hbefore⟩

end Collision

variable [Scalar α]

def Actor.overlaps (a b : Actor α) : Bool := (a.collides b).toOption.getD false

/-- Where all sizes are numbers, the stage's own notion of overlap tells of any two actors whether they do. -/
theorem World.collide_eq {w : World α} (hasc : w.store.Ascending) (hsized : w.store.Sized) (room : Nat) :
    w.collide room = w.collideWith (Collision.decided Actor.overlaps) room := by
  have hsame : ∀ a ∈ w.store.actors, ∀ b ∈ w.store.actors,
      a.collides b = Collision.decided Actor.overlaps a b := by
    intro a ha b hb
    obtain ⟨here, hhere⟩ := collides_isOk (hsized a.id a (Store.get?_of_mem hasc ha))
      (hsized b.id b (Store.get?_of_mem hasc hb))
    rw [Collision.decided, Actor.overlaps, hhere]
    rfl
  simp only [collide, collideWith, Collision.passWith, Collision.overlapping_congr hsame]

/-- The stage's own passes are such passes. -/
theorem World.collide_matches {w : World α} (hasc : w.store.Ascending) (hsized : w.store.Sized) {room : Nat}
    (h : w.store.Within (·.Portable room)) :
    ∃ swapped, Collision.Matches Actor.overlaps w.store w.touching swapped
      ⟨(w.collide room).1.store, (w.collide room).1.touching, (w.collide room).2.1, (w.collide room).2.2⟩ := by
  rw [collide_eq hasc hsized]
  exact ⟨_, Collision.passWith_matches _ w.settings hasc h w.touching⟩

private theorem Actor.overlaps_bodily : Collision.Bodily (Actor.overlaps (α := α)) := fun _ _ => rfl

namespace Stage

open Collision

/-- Three actors, of which the first two have a block each. The first and the third overlap, and the second is
where it is put. -/
def huddle (x : Int) : Stage Float :=
  ((new Settings.standard ⟨[], 0⟩).enact
    [.init, .addActor { x := .int x, y := .int 100 }, .addActor { x := .int 105, y := .int 100 },
      .submit 1 "set_color" [] none, .submit 2 "wait" [] none]).1

theorem huddle_swaps_matching :
    (∃ swapped, Matches Actor.overlaps (huddle 110).store [(1, 2)] swapped
      (passWith (decided Actor.overlaps) 986 (huddle 110).settings (huddle 110).store [(1, 2)])) ∧
    (passWith (decided Actor.overlaps) 986 (huddle 110).settings (huddle 110).store [(1, 2)]).result =
      .ok [(1, 3)] ∧
    Overlap (Actor.overlaps (α := Float)) (huddle 110).store (1, 2) ∧
    ¬ Overlap (Actor.overlaps (α := Float)) (huddle 300).store (1, 2) ∧
    (passWith (decided Actor.overlaps) 986 (huddle 110).settings
      (passWith (decided Actor.overlaps) 986 (huddle 110).settings (huddle 110).store []).store
      (passWith (decided Actor.overlaps) 986 (huddle 110).settings (huddle 110).store []).touching).result =
      .ok [] := by
  have hasc : ∀ x, (huddle x).store.Ascending := fun x =>
    ((Reachable.empty (new_isEmpty _ _)).enact _).orderly.ascending
  have hportable : (huddle 110).store.Within (·.Portable 986) := by
    have hall : ∀ a ∈ (huddle 110).store.actors,
        Program.copyDepth a.program ≤ 986 - Store.handSteps ∧ a.program.Tellable := by
      decide +kernel
    exact fun a ha => ⟨(hall a ha).1, (hall a ha).2⟩
  obtain ⟨hpass, hhistory, hagain⟩ :=
    pass_swaps_matching (α := Float) Actor.overlaps 986 (huddle 110).settings
  -- The second actor comes to the others after a pass.
  obtain ⟨hnow, hbefore⟩ := hhistory (huddle 110).store _ (some (huddle 300).store)
    (.move (.pass (.start (hasc 300))) (hasc 110)) [(1, 2)] (by decide +kernel) (1, 2) (by simp)
  refine ⟨hpass _ _ (hasc 110) hportable, by decide +kernel, hnow, hbefore _ rfl, ?_⟩
  rw [hagain Actor.overlaps_bodily _ [] (hasc 110)]

/-- A pass breaks off although all that it has to do is to swap two actors that begin to overlap. -/
theorem clogged_pass_breaks :
    ∃ s : Stage Float, Reachable s ∧ ∀ swapped, ¬ Matches Actor.overlaps s.store s.world.touching swapped
      (passWith (decided Actor.overlaps) s.world.room s.settings s.store s.world.touching) := by
  refine ⟨((new Settings.standard ⟨[], 0⟩).enact clogging).1,
    (Reachable.empty (new_isEmpty _ _)).enact clogging, ?_⟩
  intro swapped hmatches
  have hbroken : (passWith (decided Actor.overlaps)
      ((new Settings.standard ⟨[], 0⟩).enact clogging).1.world.room
      ((new Settings.standard ⟨[], 0⟩).enact clogging).1.settings
      ((new Settings.standard ⟨[], 0⟩).enact clogging).1.store
      ((new Settings.standard ⟨[], 0⟩ : Stage Float).enact clogging).1.world.touching).result.isOk = false := by
    decide +kernel
  rw [hmatches.result] at hbroken
  cases hbroken

end Stage

end SpriteStage
