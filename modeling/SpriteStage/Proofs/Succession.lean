import SpriteStage.Proofs.Heritage
/-!
# Succession

An id is used up by every attempt to add an actor, also by one that is refused, and by nothing
else. The selection is kept apart from the store.
-/
namespace SpriteStage

variable {α : Type}

def Event.newcomer? (e : Event α) : Option Int :=
  match e.change with
  | .added a => some a.id
  | _ => none

/-- The actors that are brought to the stage, in order. -/
def Signal.newcomers (out : List (Signal α)) : List Int :=
  (Signal.events out).filterMap Event.newcomer?

private theorem Signal.newcomers_append (out more : List (Signal α)) :
    newcomers (out ++ more) = newcomers out ++ newcomers more := by
  rw [newcomers, events_append, List.filterMap_append]
  rfl

def Event.Wrote (e : Event α) : Prop := ∃ p point, e.change = .wrote p point

private theorem Signal.newcomers_of_wrote {out : List (Signal α)} (h : ∀ e ∈ events out, e.Wrote) :
    newcomers out = [] := by
  rw [newcomers, List.filterMap_eq_nil_iff]
  intro e he
  obtain ⟨p, point, hchange⟩ := h e he
  simp [Event.newcomer?, hchange]

namespace Store

/-- A store that comes of another when some actors are added, none of whom has an id that was used up. -/
structure Succeeds (st : Store α) (added : List Int) (st' : Store α) : Prop where
  onward : st.nextId ≤ st'.nextId
  sorted : added.Pairwise (· < ·)
  fresh : ∀ id ∈ added, st.nextId ≤ id ∧ id < st'.nextId
  ids : ∀ id ∈ st'.ids, id ∈ st.ids ∨ id ∈ added

namespace Succeeds

variable {st st₁ st' : Store α} {added more : List Int}

private theorem ofIds (hids : st'.ids ⊆ st.ids) (hnext : st.nextId ≤ st'.nextId) : Succeeds st [] st' where
  onward := hnext
  sorted := .nil
  fresh := by simp
  ids id hid := .inl (hids hid)

private theorem refl (st : Store α) : Succeeds st [] st := ofIds (List.Subset.refl _) (Int.le_refl _)

private theorem trans (h : Succeeds st added st₁) (h' : Succeeds st₁ more st') :
    Succeeds st (added ++ more) st' where
  onward := Int.le_trans h.onward h'.onward
  sorted := by
    rw [List.pairwise_append]
    refine ⟨h.sorted, h'.sorted, ?_⟩
    intro id hid later hlater
    have hbefore := (h.fresh id hid).2
    have hafter := (h'.fresh later hlater).1
    omega
  fresh := by
    have honward := h.onward
    have hlast := h'.onward
    intro id hid
    rcases List.mem_append.mp hid with hid | hid
    · have hfresh := h.fresh id hid
      omega
    · have hfresh := h'.fresh id hid
      omega
  ids := by
    intro id hid
    rw [List.mem_append]
    rcases h'.ids id hid with hthere | hadded
    · rcases h.ids id hthere with hold | hadded
      · exact .inl hold
      · exact .inr (.inl hadded)
    · exact .inr (.inr hadded)

private theorem add {a : Actor α} (ha : a.id = st.nextId) :
    Succeeds st [a.id] ⟨st.actors ++ [a], st.nextId + 1⟩ where
  onward := by
    change st.nextId ≤ st.nextId + 1
    omega
  sorted := List.pairwise_singleton _ _
  fresh := by
    intro id hid
    rw [List.mem_singleton.mp hid, ha]
    change st.nextId ≤ st.nextId ∧ st.nextId < st.nextId + 1
    omega
  ids := by
    intro id hid
    simpa [Store.ids] using hid

end Succeeds

private theorem Deals.wrote {pool : Program α → Prop} {st st' : Store α} {out : List (Signal α)}
    (h : Deals pool st out st') : ∀ e ∈ Signal.events out, e.Wrote := by
  induction h with
  | nil st => simp [Signal.events]
  | notice n _ ih => exact ih
  | told _ _ _ _ ih =>
    intro e he
    rcases List.mem_cons.mp he with rfl | he
    · exact ⟨_, _, rfl⟩
    · exact ih e he
  | untold _ _ _ _ ih => exact ih

variable [Scalar α]

private theorem Updates.wrote {s : Settings α} {st st' : Store α} {out : List (Signal α)}
    (h : Updates s st out st') :
    ∀ e ∈ Signal.events out, e.Wrote := by
  induction h with
  | nil st => simp [Signal.events]
  | tell x aside _ ih =>
    rw [Signal.events, List.filterMap_cons, aside]
    exact ih
  | write plain written _ ih =>
    obtain ⟨a, -, hdone⟩ := bind_eq_ok written
    cases hdone
    intro e he
    rcases List.mem_cons.mp he with rfl | he
    · exact ⟨_, _, rfl⟩
    · exact ih e he
  | move point glided _ ih =>
    obtain ⟨a, -, hdone⟩ := bind_eq_ok glided
    cases hdone
    intro e he
    rcases List.mem_cons.mp he with rfl | he
    · exact ⟨_, _, rfl⟩
    · exact ih e he

private theorem Played.wrote {s : Settings α} {through : Prop} {st st' : Store α} {out : List (Signal α)}
    (h : Played s through st out st') : ∀ e ∈ Signal.events out, e.Wrote := by
  cases h with
  | intro deals _ updates events =>
    intro e he
    rw [events, List.mem_append] at he
    rcases he with he | he
    · exact deals.wrote e he
    · exact updates.wrote e he

end Store

open Store (Succeeds)

namespace Stage

private theorem Edited.succeeds {s s' : Stage α} {out : List (Signal α)} (h : Edited s s' out) :
    Succeeds s.store (Signal.newcomers out) s'.store := by
  cases h with
  | nothing world _ told =>
    have hstore : s'.store = s.store := congrArg World.store world
    rw [told, hstore]
    exact .refl _
  | skipped world _ told =>
    rw [told, store_of_world world]
    exact .ofIds (List.Subset.refl _) (by change s.store.nextId ≤ s.store.nextId + 1; omega)
  | added a newcomer world _ told =>
    rw [told, store_of_world world]
    exact .add newcomer.id
  | deleted actor world _ told =>
    rw [told, store_of_world world]
    refine .ofIds ?_ (Int.le_refl _)
    rw [Store.ids_erase]
    exact List.filter_sublist.subset
  | revised actor a p found world _ told =>
    have hquiet : Signal.newcomers out = [] := by
      apply Signal.newcomers_of_wrote
      rw [told]
      split
      · intro e he
        cases List.mem_singleton.mp he
        exact ⟨_, _, rfl⟩
      · simp [Signal.events]
    rw [hquiet, store_of_world world]
    refine .ofIds ?_ (Int.le_refl _)
    rw [Store.ids_replace]
    exact List.Subset.refl _

variable [Scalar α]

private theorem Plays.succeeds {through : Prop} {s s' : Stage α} {out : List (Signal α)}
    (h : Plays through s out s') :
    Succeeds s.store (Signal.newcomers out) s'.store := by
  have hids : s'.store.ids = s.store.ids := h.frame.ids
  have hnext : s'.store.nextId = s.store.nextId := h.frame.nextId
  rw [Signal.newcomers_of_wrote h.store.wrote]
  exact .ofIds (hids ▸ List.Subset.refl _) (Int.le_of_eq hnext.symm)

/-- Until a reset, those who come to a stage have ids that were never used up. -/
theorem enact_succeeds (s : Stage α) {acts : List (Act α)} (hacts : ∀ a ∈ acts, a ≠ .reset) :
    Succeeds s.store (Signal.newcomers (s.enact acts).2) (s.enact acts).1.store := by
  induction acts generalizing s with
  | nil => exact .refl _
  | cons a acts ih =>
    have hstep : Succeeds s.store (Signal.newcomers (s.perform a).2) (s.perform a).1.store := by
      rcases Act.cases a with hedit | hfree | hreset
      · exact (perform_edited s hedit).succeeds
      · exact (perform_plays s hfree).succeeds
      · exact absurd hreset (hacts a List.mem_cons_self)
    have hrest := ih (s.perform a).1 fun b hb => hacts b (List.mem_cons_of_mem _ hb)
    simp only [enact, Signal.newcomers_append]
    exact hstep.trans hrest

/-! ## The selection -/

@[simp]
theorem selected_settle (s : Stage α) (id : EngineId) (outcome : Phase) :
    (s.settle id outcome).1.selected = s.selected := by
  unfold settle
  split <;> rfl

@[simp]
theorem selected_finish (s : Stage α) (t : Task α) (outcome : Phase) :
    (s.finish t outcome).1.selected = s.selected := by
  have hsettle := s.selected_settle t.engine outcome
  unfold finish
  dsimp only
  split
  · exact hsettle
  · split <;> exact hsettle

@[simp]
theorem selected_resume (s : Stage α) (t : Task α) : (s.resume t).1.selected = s.selected := by
  unfold resume
  split
  · rfl
  · dsimp only
    split
    · rfl
    · rfl
    · exact selected_finish _ t _

@[simp]
theorem selected_cancelEach (ids : List EngineId) (s : Stage α) :
    (cancelEach ids s).1.selected = s.selected := by
  induction ids generalizing s with
  | nil => rfl
  | cons id ids ih => exact (ih _).trans (s.selected_settle id _)

@[simp]
theorem selected_stop (s : Stage α) (actors : List Int) : (s.stop actors).stage.selected = s.selected := by
  unfold stop
  dsimp only
  split
  · rfl
  · exact selected_cancelEach _ s

@[simp]
theorem selected_playActor (s : Stage α) (actor : Int) : (s.playActor actor).stage.selected = s.selected := by
  unfold playActor
  split
  · rfl
  · dsimp only
    split
    · rfl
    · split <;> rfl

@[simp]
theorem selected_playEach (actors : List Int) (s : Stage α) :
    (playEach actors s).stage.selected = s.selected := by
  induction actors generalizing s with
  | nil => rfl
  | cons actor actors ih => exact (ih _).trans (s.selected_playActor actor)

@[simp]
theorem selected_beat (s : Stage α) (b : Beat α) : (s.beat b).1.selected = s.selected := by
  cases b with
  | retire => rfl
  | turn =>
    simp only [beat]
    split
    · rfl
    · exact selected_resume _ _
  | wake =>
    simp only [beat]
    split <;> rfl
  | clock time =>
    simp only [beat]
    split <;> rfl

/-- The acts that decide who is selected. -/
def Act.selects : Act α → Bool
  | .init | .reset | .addActor _ | .deleteActor _ | .selectActor _ => true
  | _ => false

/-- The same actors are there, and the same one of them is selected. -/
structure SameCast (s s' : Stage α) : Prop where
  selected : s'.selected = s.selected
  ids : s'.store.ids = s.store.ids

omit [Scalar α] in
theorem SameCast.refl (s : Stage α) : SameCast s s := ⟨rfl, rfl⟩

private theorem commit_sameCast {β : Type} {s : Stage α} {actor : Int} {p : Program α}
    (hp : s.programOf actor = .ok p) (next : Nat) (q : Program α) (result : β) :
    SameCast s ({ s with nextBlock := next }.commit actor q result).stage where
  selected := rfl
  ids := by
    obtain ⟨a, ha, -⟩ := programOf_eq_ok hp
    rw [(commit_eq (s := { s with nextBlock := next }) ha q result).1]
    exact Store.ids_replace _ _

private theorem editProgram_sameCast {β : Type} (s : Stage α) (actor : Int)
    (f : Program α → Except Error (Program α × β)) : SameCast s (s.editProgram actor f).stage := by
  unfold editProgram
  split
  · exact .refl s
  · rename_i q r hedit
    obtain ⟨p, hp, -⟩ := bind_eq_ok hedit
    exact commit_sameCast hp s.nextBlock q r

private theorem perform_sameCast (s : Stage α) {a : Act α} (h : a.selects = false) :
    SameCast s (s.perform a).1 := by
  cases a with
  | submit actor typeId inputs parent =>
    simp only [perform, Reply.effect, submit]
    split
    · exact .refl s
    · obtain ⟨hselected, hids⟩ := editProgram_sameCast { s with nextBlock := s.nextBlock + 1 } actor _
      exact ⟨hselected, hids⟩
  | editInput actor block name value => exact editProgram_sameCast _ _ _
  | reorder actor source target => exact editProgram_sameCast _ _ _
  | removeBlock actor block => exact editProgram_sameCast _ _ _
  | duplicate actor block =>
    simp only [perform, Reply.effect, duplicate]
    split
    · exact .refl s
    · rename_i q clone next hedit
      obtain ⟨p, hp, -⟩ := bind_eq_ok hedit
      exact commit_sameCast hp next q clone
  | clearProgram actor => exact editProgram_sameCast _ _ _
  | playAll =>
    refine ⟨?_, (perform_plays s rfl).frame.ids⟩
    simp only [perform, Reply.effect, playAll]
    split <;> exact selected_playEach _ s
  | playActor actor => exact ⟨selected_playActor s actor, (perform_plays s rfl).frame.ids⟩
  | stopAll => exact ⟨selected_stop s _, (perform_plays s rfl).frame.ids⟩
  | stopActor actor =>
    refine ⟨?_, (perform_plays s rfl).frame.ids⟩
    simp only [perform, Reply.effect, stopActor]
    split
    · rfl
    · exact selected_stop s _
  | beat b => exact ⟨selected_beat s b, (perform_plays s rfl).frame.ids⟩
  | init | reset | addActor _ | deleteActor _ | selectActor _ => cases h

/-- An attempt to add an actor uses up the next id. -/
theorem cast_admits (s : Stage α) (c : Casting α) :
    (s.cast c).stage.selected = s.selected ∧ (s.cast c).stage.store.nextId = s.store.nextId + 1 ∧
      match (s.cast c).result with
      | .error _ => (s.cast c).stage.store.ids = s.store.ids
      | .ok a => a.id = s.store.nextId ∧ (s.cast c).stage.store.ids = s.store.ids ++ [a.id] := by
  unfold cast
  rcases Store.cast_cases s.settings s.store s.draws c with ⟨d, cause, hcast⟩ | ⟨d, a, hcast, hnew⟩
  · rw [hcast]
    exact ⟨rfl, rfl, rfl⟩
  · rw [hcast]
    refine ⟨rfl, rfl, hnew.id, ?_⟩
    simp [store, withStore, Store.ids]

/-- The selection fits the actors: it is one of them, and it is missing only if there are none. -/
def SelectionFits (s : Stage α) : Prop :=
  match s.selected with
  | none => s.store.ids = []
  | some id => id ∈ s.store.ids

omit [Scalar α] in
theorem SelectionFits.congr {s s' : Stage α} (h : s.SelectionFits) (same : SameCast s s') :
    s'.SelectionFits := by
  unfold SelectionFits
  rw [same.selected, same.ids]
  exact h

omit [Scalar α] in
theorem SelectionFits.ofSome {s : Stage α} (id : Int) (hselected : s.selected = some id) (hid : id ∈ s.store.ids) :
    s.SelectionFits := by
  unfold SelectionFits
  rw [hselected]
  exact hid

omit [Scalar α] in
theorem SelectionFits.mem {s : Stage α} (h : s.SelectionFits) {id : Int} (hselected : s.selected = some id) :
    id ∈ s.store.ids := by
  unfold SelectionFits at h
  rwa [hselected] at h

omit [Scalar α] in
theorem SelectionFits.ids_eq_nil {s : Stage α} (h : s.SelectionFits) (hselected : s.selected = none) :
    s.store.ids = [] := by
  unfold SelectionFits at h
  rwa [hselected] at h

private theorem SelectionFits.addActor {s : Stage α} (h : s.SelectionFits) (c : Casting α) :
    (s.addActor c).stage.SelectionFits := by
  obtain ⟨hselected, -, hresult⟩ := s.cast_admits c
  unfold Stage.addActor
  dsimp only
  split
  · rename_i cause hcast
    rw [hcast] at hresult
    exact h.congr ⟨hselected, hresult⟩
  · rename_i a hcast
    rw [hcast] at hresult
    obtain ⟨-, hids⟩ := hresult
    cases hwas : s.selected with
    | none =>
      refine .ofSome a.id ?_ ?_
      · simp [hselected, hwas]
      · change a.id ∈ (s.cast c).stage.store.ids
        simp [hids]
    | some id =>
      have hthere := h.mem hwas
      refine .ofSome id ?_ ?_
      · simp [hselected, hwas]
      · change id ∈ (s.cast c).stage.store.ids
        simp [hids, hthere]

private theorem SelectionFits.init {s : Stage α} (h : s.SelectionFits) : s.init.stage.SelectionFits := by
  obtain ⟨hselected, -, hresult⟩ := s.cast_admits Store.firstCasting
  unfold Stage.init seed
  by_cases hempty : s.store.actors.isEmpty
  · simp only [hempty, if_true]
    cases hcast : (s.cast Store.firstCasting).result with
    | error cause =>
      rw [hcast] at hresult
      exact h.congr ⟨hselected, hresult⟩
    | ok a =>
      rw [hcast] at hresult
      refine .ofSome a.id rfl ?_
      change a.id ∈ (s.cast Store.firstCasting).stage.store.ids
      simp [hresult.2]
  · simp only [hempty]
    exact h

private theorem SelectionFits.deleteActor {s : Stage α} (h : s.SelectionFits) (actor : Int) :
    (s.deleteActor actor).stage.SelectionFits := by
  unfold Stage.deleteActor
  split
  · exact h
  · have hids : (s.store.erase actor).ids = s.store.ids.filter (· != actor) := Store.ids_erase _ _
    by_cases hthis : s.selected = some actor
    · -- The selection passes to the first who is left.
      cases hhead : (s.store.erase actor).ids.head? with
      | none =>
        have hnobody : (s.store.erase actor).ids = [] := List.head?_eq_none_iff.mp hhead
        simp only [SelectionFits, hthis, if_true, hhead]
        exact hnobody
      | some id =>
        refine .ofSome id ?_ (List.mem_of_head? hhead)
        simp [hthis, hhead]
    · cases hwas : s.selected with
      | none =>
        have hnobody := h.ids_eq_nil hwas
        simp only [SelectionFits, reduceCtorEq, if_false]
        change (s.store.erase actor).ids = []
        rw [hids, hnobody]
        rfl
      | some id =>
        have hother : id ≠ actor := fun heq => hthis (heq ▸ hwas)
        refine .ofSome id ?_ ?_
        · simp [hother]
        · change id ∈ (s.store.erase actor).ids
          rw [hids, List.mem_filter]
          exact ⟨h.mem hwas, by simpa using hother⟩

omit [Scalar α] in
theorem SelectionFits.selectActor {s : Stage α} (h : s.SelectionFits) (actor : Int) :
    (s.selectActor actor).stage.SelectionFits := by
  unfold Stage.selectActor
  split
  · exact h
  · rename_i a ha
    have hthere : (s.store.get? actor).isSome := by simp [Store.get_eq_ok.mp ha]
    exact .ofSome actor rfl (Store.isSome_get?.mp hthere)

private theorem SelectionFits.perform {s : Stage α} (h : s.SelectionFits) (a : Act α) :
    (s.perform a).1.SelectionFits := by
  cases hselects : a.selects with
  | false => exact h.congr (s.perform_sameCast hselects)
  | true =>
    cases a with
    | init => exact h.init
    | reset => exact rfl
    | addActor casting => exact h.addActor casting
    | deleteActor actor => exact h.deleteActor actor
    | selectActor actor => exact h.selectActor actor
    | _ => cases hselects

private theorem Reachable.selectionFits {s : Stage α} (h : Reachable s) : s.SelectionFits := by
  induction h with
  | empty hempty =>
    unfold SelectionFits
    rw [hempty.selected, hempty.store]
    rfl
  | act _ a ih => exact ih.perform a

private theorem addActor_takes_id (s : Stage α) (c : Casting α) :
    (s.addActor c).stage.store.nextId = s.store.nextId + 1 ∧
      ∀ a, (s.addActor c).result = .ok a → a.id = s.store.nextId := by
  obtain ⟨-, hnext, hresult⟩ := s.cast_admits c
  unfold addActor
  dsimp only
  split
  · rename_i cause hcast
    refine ⟨hnext, ?_⟩
    intro a ha
    rw [hcast] at ha
    cases ha
  · rename_i b hcast
    rw [hcast] at hresult
    refine ⟨hnext, ?_⟩
    intro a ha
    cases hcast.symm.trans ha
    exact hresult.1

/-- On every reachable stage an actor is found under its own id and no other, the ids ascend and lie below the
next one, and somebody on the stage is selected unless nobody is there. Each attempt to add an actor takes the
next id, and until a reset no id that was taken comes back: those who come to the stage later have ascending ids
from the next one on, and nobody else is there later who is not there now. -/
theorem actors_identified {s : Stage α} (h : Reachable s) :
    (∀ id a, s.store.get? id = some a ↔ a ∈ s.store.actors ∧ a.id = id) ∧
      s.store.ids.Pairwise (· < ·) ∧ (∀ id ∈ s.store.ids, id < s.store.nextId) ∧
      (s.selected = none ↔ s.store.actors = []) ∧
      (∀ id, s.selected = some id → ∃ a ∈ s.store.actors, a.id = id) ∧
      (∀ c, (s.addActor c).stage.store.nextId = s.store.nextId + 1 ∧
        ∀ a, (s.addActor c).result = .ok a → a.id = s.store.nextId) ∧
      ∀ acts : List (Act α), (∀ a ∈ acts, a ≠ .reset) →
        s.store.nextId ≤ (s.enact acts).1.store.nextId ∧
          (Signal.newcomers (s.enact acts).2).Pairwise (· < ·) ∧
          (∀ id ∈ Signal.newcomers (s.enact acts).2,
            s.store.nextId ≤ id ∧ id < (s.enact acts).1.store.nextId) ∧
          ∀ id ∈ (s.enact acts).1.store.ids,
            id ∈ s.store.ids ∨ id ∈ Signal.newcomers (s.enact acts).2 := by
  have hascending : s.store.Ascending := h.orderly.ascending
  have hselection := h.selectionFits
  refine ⟨?_, hascending.sorted, hascending.below, ?_, ?_, s.addActor_takes_id, ?_⟩
  · intro id a
    constructor
    · intro ha
      exact ⟨Store.mem_of_get? ha, Store.get?_id ha⟩
    · rintro ⟨ha, rfl⟩
      exact Store.get?_of_mem hascending ha
  · constructor
    · intro hnone
      exact List.map_eq_nil_iff.mp (hselection.ids_eq_nil hnone)
    · intro hnobody
      cases hselected : s.selected with
      | none => rfl
      | some id =>
        have hmem := hselection.mem hselected
        simp [Store.ids, hnobody] at hmem
  · intro id hselected
    exact List.mem_map.mp (hselection.mem hselected)
  · intro acts hacts
    have hsucceeds := s.enact_succeeds hacts
    exact ⟨hsucceeds.onward, hsucceeds.sorted, hsucceeds.fresh, hsucceeds.ids⟩

def turnover : List (Act Float) :=
  [.init, .addActor { x := .text "left" }, .addActor {}, .deleteActor 1, .addActor {}, .deleteActor 4,
    .addActor {}, .selectActor 5, .deleteActor 5]

theorem turnover_identified :
    Signal.newcomers ((new Settings.standard ⟨[], 0⟩).enact turnover).2 = [1, 3, 4, 5] ∧
      (Signal.newcomers ((new Settings.standard ⟨[], 0⟩).enact turnover).2).Pairwise (· < ·) ∧
      ((new Settings.standard ⟨[], 0⟩).enact turnover).1.selected = some 3 ∧
      ∃ a ∈ ((new Settings.standard ⟨[], 0⟩).enact turnover).1.store.actors, a.id = 3 := by
  have hempty : Reachable (new Settings.standard ⟨[], 0⟩ : Stage Float) := .empty (new_isEmpty _ _)
  obtain ⟨-, -, -, -, -, -, hcome⟩ := actors_identified hempty
  obtain ⟨-, -, -, -, hselected, -, -⟩ := actors_identified (hempty.enact turnover)
  have hthree : ((new Settings.standard ⟨[], 0⟩).enact turnover).1.selected = some 3 := by decide +kernel
  exact ⟨by decide +kernel, (hcome turnover (by simp [turnover])).2.1, hthree, hselected 3 hthree⟩

end Stage

end SpriteStage
