import Mathlib.Data.List.Perm.Lattice
import Mathlib.Logic.Equiv.Basic
import SpriteStage.Proofs.Conduct
/-!
# What a collision pass does to programs

A pass deals programs out, and all of them are from the pool of those that the actors held before
it. A pass that breaks off may have handed over only the first half of a swap; then one program is
there twice and another is gone.
-/
namespace SpriteStage

variable {α : Type}

/-- A program that can be told, because there is no flaw in its documents. -/
def Program.Tellable (p : Program α) : Prop := Program.flaw? .record blockRoom p = none

instance (p : Program α) : Decidable p.Tellable := inferInstanceAs (Decidable (_ = none))

namespace Store

def program? (st : Store α) (id : Int) : Option (Program α) := (st.get? id).map (·.program)

def programs (st : Store α) : List (Program α) := st.actors.map (·.program)

private theorem isSome_program? {st : Store α} {id : Int} : (st.program? id).isSome ↔ id ∈ st.ids := by
  rw [program?, Option.isSome_map]
  exact isSome_get?

private theorem map_actors {β : Type} {st : Store α} (h : st.Ascending) (f : Actor α → β) :
    st.actors.map f = st.ids.filterMap fun id => (st.get? id).map f := by
  have hown : ∀ a ∈ st.actors, some (f a) = (st.get? a.id).map f := by
    intro a ha
    rw [get?_of_mem h ha]
    rfl
  rw [ids, List.filterMap_map, ← List.filterMap_eq_map]
  exact List.filterMap_congr hown

private theorem programs_eq {st : Store α} (h : st.Ascending) : st.programs = st.ids.filterMap st.program? :=
  map_actors h (·.program)

theorem SameBodies.map_body {st st' : Store α} (h : SameBodies st st') (hasc : st.Ascending) :
    st'.actors.map Actor.body = st.actors.map Actor.body := by
  rw [map_actors (hasc.congr h.ids h.nextId), map_actors hasc, h.ids]
  congr 1
  funext id
  exact h.body id

theorem mem_programs_of_program? {st : Store α} {id : Int} {p : Program α} (h : st.program? id = some p) :
    p ∈ st.programs := by
  obtain ⟨a, ha, rfl⟩ := Option.map_eq_some_iff.mp h
  exact List.mem_map_of_mem (mem_of_get? ha)

theorem program?_replace {st : Store α} {id : Int} {a : Actor α} (ha : st.get? id = some a)
    (p : Program α) (j : Int) :
    (st.replace { a with program := p }).program? j = if j = id then some p else st.program? j := by
  have hid : a.id = id := get?_id ha
  simp only [program?, get?_replace, hid]
  by_cases hj : j = id
  · subst hj
    simp [ha]
  · simp [hj]

/-! ## Permutations -/

/-- Stores with the same actors, in which each actor holds the program that the actor `σ id` held before. -/
structure PermutedBy (σ : Equiv.Perm Int) (st st' : Store α) : Prop where
  ids : st'.ids = st.ids
  nextId : st'.nextId = st.nextId
  program : ∀ id, st'.program? id = st.program? (σ id)

namespace PermutedBy

variable {st st₁ st' : Store α} {σ τ : Equiv.Perm Int}

theorem refl (st : Store α) : PermutedBy (Equiv.refl Int) st st := ⟨rfl, rfl, fun _ => rfl⟩

theorem trans (h : PermutedBy σ st st₁) (h' : PermutedBy τ st₁ st') : PermutedBy (τ.trans σ) st st' :=
  ⟨h'.ids.trans h.ids, h'.nextId.trans h.nextId, fun j => (h'.program j).trans (h.program (τ j))⟩

private theorem ascending (h : PermutedBy σ st st') (hasc : st.Ascending) : st'.Ascending :=
  hasc.congr h.ids h.nextId

/-- No program is lost, and none is there more often than before. -/
theorem programs_perm (h : PermutedBy σ st st') (hasc : st.Ascending) : st'.programs.Perm st.programs := by
  have hnodup : st.ids.Nodup := hasc.sorted.imp fun hlt heq => by omega
  have hmem : ∀ id, σ id ∈ st.ids ↔ id ∈ st.ids := by
    intro id
    rw [← isSome_program?, ← h.program, isSome_program?, h.ids]
  have hids : (st.ids.map σ).Perm st.ids := by
    rw [List.perm_ext_iff_of_nodup (hnodup.map σ.injective) hnodup]
    intro id
    constructor
    · intro hid
      obtain ⟨j, hj, rfl⟩ := List.mem_map.mp hid
      exact (hmem j).mpr hj
    · intro hid
      refine List.mem_map.mpr ⟨σ.symm id, (hmem _).mp ?_, σ.apply_symm_apply id⟩
      rwa [σ.apply_symm_apply]
  have hprograms : st'.programs = (st.ids.map σ).filterMap st.program? := by
    rw [programs_eq (h.ascending hasc), h.ids, List.filterMap_map]
    congr 1
    funext id
    exact h.program id
  rw [hprograms, programs_eq hasc]
  exact hids.filterMap _

end PermutedBy

/-! ## Dealing out -/

def Within (pool : Program α → Prop) (st : Store α) : Prop := ∀ a ∈ st.actors, pool a.program

theorem within_programs (st : Store α) : st.Within (· ∈ st.programs) := fun _ ha => List.mem_map_of_mem ha

private theorem Within.replace {pool : Program α → Prop} {st : Store α} (h : st.Within pool) {b : Actor α}
    (hb : pool b.program) : (st.replace b).Within pool := by
  intro a ha
  obtain ⟨c, hc, rfl⟩ := List.mem_map.mp ha
  split
  · exact hb
  · exact h c hc

/-- Programs of a pool are given to actors one after the other, and each that can be told is told. -/
inductive Deals (pool : Program α → Prop) : Store α → List (Signal α) → Store α → Prop where
  | nil (st : Store α) : Deals pool st [] st
  | notice {st st' : Store α} {out : List (Signal α)} (n : Notice α) (rest : Deals pool st out st') :
      Deals pool st (.notice n :: out) st'
  | told {st st' : Store α} {out : List (Signal α)} {id : Int} {a : Actor α} {p : Program α}
      (found : st.get? id = some a) (known : pool p) (tellable : p.Tellable)
      (rest : Deals pool (st.replace { a with program := p }) out st') :
      Deals pool st (.event ⟨id, .wrote { program := some p } none⟩ :: out) st'
  | untold {st st' : Store α} {out : List (Signal α)} {id : Int} {a : Actor α} {p : Program α}
      (found : st.get? id = some a) (known : pool p) (flawed : ¬ p.Tellable)
      (rest : Deals pool (st.replace { a with program := p }) out st') : Deals pool st out st'

namespace Deals

variable {pool : Program α → Prop} {st st₁ st' : Store α} {out more : List (Signal α)}

private theorem append (h : Deals pool st out st₁) (h' : Deals pool st₁ more st') :
    Deals pool st (out ++ more) st' := by
  induction h with
  | nil st => exact h'
  | notice n _ ih => exact .notice n (ih h')
  | told found known tellable _ ih => exact .told found known tellable (ih h')
  | untold found known flawed _ ih => exact .untold found known flawed (ih h')

theorem within (h : Deals pool st out st') (hst : st.Within pool) : st'.Within pool := by
  induction h with
  | nil st => exact hst
  | notice _ _ ih => exact ih hst
  | told _ known _ _ ih => exact ih (hst.replace known)
  | untold _ known _ _ ih => exact ih (hst.replace known)

theorem ids (h : Deals pool st out st') : st'.ids = st.ids ∧ st'.nextId = st.nextId := by
  induction h with
  | nil st => exact ⟨rfl, rfl⟩
  | notice _ _ ih => exact ih
  | told _ _ _ _ ih => exact ⟨ih.1.trans (ids_replace _ _), ih.2.trans (nextId_replace _ _)⟩
  | untold _ _ _ _ ih => exact ⟨ih.1.trans (ids_replace _ _), ih.2.trans (nextId_replace _ _)⟩

theorem sized (h : Deals pool st out st') (hst : st.Sized) : st'.Sized := by
  induction h with
  | nil st => exact hst
  | notice _ _ ih => exact ih hst
  | told found _ _ _ ih => exact ih (hst.give found _)
  | untold found _ _ _ ih => exact ih (hst.give found _)

end Deals

variable [Scalar α]

theorem publish_program {room : Nat} (s : Settings α) {st : Store α} {id : Int} {a : Actor α}
    (ha : st.get? id = some a) (p : Program α) :
    st.publish room (st.write s id { program := some p }) =
      match Program.flaw? .record blockRoom p with
      | none =>
        ⟨st.replace { a with program := p }, [.event ⟨id, .wrote { program := some p } none⟩], .ok ()⟩
      | some flaw => ⟨st.replace { a with program := p }, [], .error flaw.error⟩ := by
  have hwrite : st.write s id { program := some p } =
      .ok (st.replace { a with program := p }, ⟨id, .wrote { program := some p } none⟩) := by
    rw [write, get_of_get? ha]
    rfl
  have hshallow : ¬ room - tellSteps < ({ program := some p } : Patch α).tellDepth := Nat.not_lt_zero _
  rw [hwrite]
  simp only [publish, Event.obstacle?, if_neg hshallow, Option.bind_some]
  cases Program.flaw? .record blockRoom p with
  | none => rfl
  | some flaw => rfl

/-- Everything that can come of handing a program to an actor. -/
theorem hand_cases (room : Nat) (s : Settings α) (st : Store α) (id : Int) (p : Program α) :
    (∃ cause, st.hand room s id p = ⟨st, [], .error cause⟩) ∨
    (∃ a flaw, st.get? id = some a ∧ Program.flaw? .record blockRoom p = some flaw ∧
      st.hand room s id p = ⟨st.replace { a with program := p }, [], .error flaw.error⟩) ∨
    (∃ a, st.get? id = some a ∧ Program.flaw? .record blockRoom p = none ∧ st.hand room s id p =
      ⟨st.replace { a with program := p }, [.event ⟨id, .wrote { program := some p } none⟩], .ok ()⟩) := by
  unfold hand Program.copy
  split
  · rename_i cause _
    exact .inl ⟨cause, rfl⟩
  · rename_i copy hcopy
    have hsame : copy = p := by
      split at hcopy
      · cases hcopy
      · exact (Except.ok.inj hcopy).symm
    subst hsame
    cases ha : st.get? id with
    | none =>
      have hwrite : st.write s id { program := some copy } = .error (.actorNotFound id) := by
        rw [write, get, ha]
        rfl
      rw [hwrite]
      exact .inl ⟨_, rfl⟩
    | some a =>
      simp only [publish_program s ha]
      cases hflaw : Program.flaw? .record blockRoom copy with
      | none => exact .inr (.inr ⟨a, rfl, rfl, rfl⟩)
      | some flaw => exact .inr (.inl ⟨a, flaw, rfl, rfl, rfl⟩)

private theorem hand_deals {pool : Program α → Prop} (room : Nat) (s : Settings α) (st : Store α) (id : Int)
    {p : Program α} (hp : pool p) :
    Deals pool st (st.hand room s id p).out (st.hand room s id p).store := by
  rcases hand_cases room s st id p with
    ⟨cause, hhand⟩ | ⟨a, flaw, ha, hflaw, hhand⟩ | ⟨a, ha, hsound, hhand⟩
  · rw [hhand]
    exact .nil st
  · rw [hhand]
    have hflawed : ¬ p.Tellable := by simp [Program.Tellable, hflaw]
    exact .untold ha hp hflawed (.nil _)
  · rw [hhand]
    exact .told ha hp hsound (.nil _)

private theorem hand_ok {room : Nat} {s : Settings α} {st : Store α} {id : Int} {p : Program α}
    (h : (st.hand room s id p).result = .ok ()) :
    ∃ a, st.get? id = some a ∧ (st.hand room s id p).store = st.replace { a with program := p } := by
  rcases hand_cases room s st id p with
    ⟨cause, hhand⟩ | ⟨a, flaw, ha, hflaw, hhand⟩ | ⟨a, ha, hsound, hhand⟩
  · simp [hhand] at h
  · simp [hhand] at h
  · exact ⟨a, ha, by rw [hhand]⟩

omit [Scalar α] in
theorem andThen_deals {pool : Program α → Prop} {st : Store α} {done : Written α}
    {f : Store α → Written α} (h : Deals pool st done.out done.store)
    (hf : Deals pool done.store (f done.store).out (f done.store).store) :
    Deals pool st (done.andThen f).out (done.andThen f).store := by
  unfold Written.andThen
  split
  · exact h
  · exact h.append hf

omit [Scalar α] in
theorem andThen_ok {done : Written α} {f : Store α → Written α} (h : (done.andThen f).result = .ok ()) :
    done.result = .ok () ∧ (f done.store).result = .ok () ∧
      (done.andThen f).store = (f done.store).store := by
  unfold Written.andThen at h ⊢
  split
  · rename_i cause hcause
    rw [hcause] at h
    simp [hcause] at h
  · rename_i hok
    rw [hok] at h
    exact ⟨hok, h, rfl⟩

end Store

variable [Scalar α]

namespace Collision

open Store (Deals PermutedBy)

theorem swap_deals {pool : Program α → Prop} (room : Nat) (s : Settings α) {st : Store α}
    (h : st.Within pool) (pair : Pair) :
    Deals pool st (swap room s st pair).out (swap room s st pair).store := by
  unfold swap
  split
  · rename_i a b ha hb
    have hpool : pool a.program := h a (Store.mem_of_get? (Store.get_eq_ok.mp ha))
    have hpool' : pool b.program := h b (Store.mem_of_get? (Store.get_eq_ok.mp hb))
    apply Store.andThen_deals (Store.hand_deals room s st pair.1 hpool')
    apply Store.andThen_deals (Store.hand_deals room s _ pair.2 hpool)
    exact .notice _ (.nil _)
  · exact .nil st
  · exact .nil st

private theorem swapAll_deals {pool : Program α → Prop} (room : Nat) (s : Settings α) {st : Store α}
    (h : st.Within pool) (pairs : List Pair) :
    Deals pool st (swapAll room s st pairs).out (swapAll room s st pairs).store := by
  induction pairs generalizing st with
  | nil => exact .nil st
  | cons pair rest ih =>
    have hswap := swap_deals room s h pair
    exact Store.andThen_deals hswap (ih (hswap.within h))

theorem swap_permuted {room : Nat} {s : Settings α} {st : Store α} {pair : Pair}
    (h : (swap room s st pair).result = .ok ()) :
    PermutedBy (Equiv.swap pair.1 pair.2) st (swap room s st pair).store := by
  unfold swap at h ⊢
  split at h
  · rename_i a b ha hb
    obtain ⟨hfirst, hrest, hstore⟩ := Store.andThen_ok h
    obtain ⟨hsecond, -, hstore'⟩ := Store.andThen_ok hrest
    obtain ⟨a', ha', hgiven⟩ := Store.hand_ok hfirst
    obtain ⟨b', hb', hgiven'⟩ := Store.hand_ok hsecond
    have hprogram : st.program? pair.1 = some a.program := by
      rw [Store.program?, Store.get_eq_ok.mp ha]
      rfl
    have hprogram' : st.program? pair.2 = some b.program := by
      rw [Store.program?, Store.get_eq_ok.mp hb]
      rfl
    rw [hstore, hstore', hgiven']
    refine ⟨?_, ?_, ?_⟩
    · rw [Store.ids_replace, hgiven, Store.ids_replace]
    · rw [Store.nextId_replace, hgiven, Store.nextId_replace]
    · intro id
      rw [Store.program?_replace hb', hgiven, Store.program?_replace ha', Equiv.swap_apply_def]
      by_cases hsnd : id = pair.2
      · by_cases hfst : id = pair.1
        · -- The two are the same actor, and so are their programs.
          have hsame : pair.1 = pair.2 := hfst.symm.trans hsnd
          rw [if_pos hsnd, if_pos hfst, ← hsame, hprogram]
        · rw [if_pos hsnd, if_neg hfst, if_pos hsnd, hprogram]
      · by_cases hfst : id = pair.1
        · rw [if_neg hsnd, if_pos hfst, if_pos hfst, hprogram']
        · rw [if_neg hsnd, if_neg hfst, if_neg hfst, if_neg hsnd]
  · cases h
  · cases h

private theorem swapAll_permuted {room : Nat} {s : Settings α} {st : Store α} {pairs : List Pair}
    (h : (swapAll room s st pairs).result = .ok ()) :
    ∃ σ, PermutedBy σ st (swapAll room s st pairs).store := by
  induction pairs generalizing st with
  | nil => exact ⟨_, .refl st⟩
  | cons pair rest ih =>
    obtain ⟨hswap, hrest, hstore⟩ := Store.andThen_ok h
    obtain ⟨τ, hτ⟩ := ih hrest
    rw [swapAll, hstore]
    exact ⟨_, (swap_permuted hswap).trans hτ⟩

end Collision

/-! ## Passes that go through -/

/-- A program that can be handed over with room for some steps down: it can be copied and told. -/
structure Program.Portable (room : Nat) (p : Program α) : Prop where
  copied : Program.copyDepth p ≤ room - Store.handSteps
  told : p.Tellable

theorem Store.hand_portable {room : Nat} (s : Settings α) {st : Store α} {id : Int} {a : Actor α}
    (ha : st.get? id = some a) {p : Program α} (hp : p.Portable room) :
    st.hand room s id p =
      ⟨st.replace { a with program := p }, [.event ⟨id, .wrote { program := some p } none⟩], .ok ()⟩ := by
  have hcopy : Program.copy (room - handSteps) p = .ok p := if_neg (Nat.not_lt.mpr hp.copied)
  have htold : Program.flaw? .record blockRoom p = none := hp.told
  simp only [hand, hcopy, publish_program s ha, htold]

private theorem Store.hand_isOk {room : Nat} (s : Settings α) {st : Store α} {id : Int} {p : Program α}
    (hid : id ∈ st.ids) (hp : p.Portable room) : (st.hand room s id p).result = .ok () := by
  obtain ⟨a, ha⟩ := Option.isSome_iff_exists.mp (isSome_get?.mpr hid)
  rw [hand_portable s ha hp]

namespace Collision

omit [Scalar α] in
theorem hits_subset {hit : Actor α → Except Error Bool} {actors found : List (Actor α)}
    (h : hits hit actors = .ok found) : found ⊆ actors := by
  induction actors generalizing found with
  | nil =>
    cases h
    exact List.Subset.refl _
  | cons b rest ih =>
    obtain ⟨here, -, h⟩ := bind_eq_ok h
    obtain ⟨more, hmore, h⟩ := bind_eq_ok h
    cases h
    split
    · exact List.cons_subset_cons b (ih hmore)
    · exact List.Subset.trans (ih hmore) (List.subset_cons_self b rest)

omit [Scalar α] in
theorem mem_overlapping {hit : Actor α → Actor α → Except Error Bool} {actors : List (Actor α)}
    {pairs : List Pair} (h : overlapping hit actors = .ok pairs) :
    ∀ pair ∈ pairs, pair.1 ∈ actors.map (·.id) ∧ pair.2 ∈ actors.map (·.id) := by
  induction actors generalizing pairs with
  | nil =>
    cases h
    simp
  | cons a rest ih =>
    obtain ⟨found, hfound, h⟩ := bind_eq_ok h
    obtain ⟨more, hmore, h⟩ := bind_eq_ok h
    cases h
    intro pair hpair
    rcases List.mem_append.mp hpair with hpair | hpair
    · obtain ⟨b, hb, rfl⟩ := List.mem_map.mp hpair
      exact ⟨List.mem_cons_self, List.mem_cons_of_mem _ (List.mem_map_of_mem (hits_subset hfound hb))⟩
    · exact (ih hmore pair hpair).imp (List.mem_cons_of_mem _) (List.mem_cons_of_mem _)

private theorem matching_subset (pairs : List Pair) (used : List Int) : matching pairs used ⊆ pairs := by
  induction pairs generalizing used with
  | nil => exact List.Subset.refl _
  | cons pair rest ih =>
    obtain ⟨a, b⟩ := pair
    unfold matching
    split
    · exact List.Subset.trans (ih used) (List.subset_cons_self _ _)
    · exact List.cons_subset_cons _ (ih _)

theorem swap_isOk {room : Nat} (s : Settings α) {st : Store α} (h : st.Within (·.Portable room))
    {pair : Pair} (hfst : pair.1 ∈ st.ids) (hsnd : pair.2 ∈ st.ids) :
    (swap room s st pair).result = .ok () ∧ (swap room s st pair).store.ids = st.ids := by
  obtain ⟨a, ha⟩ := Option.isSome_iff_exists.mp (Store.isSome_get?.mpr hfst)
  obtain ⟨b, hb⟩ := Option.isSome_iff_exists.mp (Store.isSome_get?.mpr hsnd)
  have hfirst := Store.hand_isOk s hfst (h b (Store.mem_of_get? hb))
  have hids := (Store.hand_bodies room s st pair.1 b.program).ids
  have hsecond : ((st.hand room s pair.1 b.program).store.hand room s pair.2 a.program).result = .ok () :=
    Store.hand_isOk s (by rwa [hids]) (h a (Store.mem_of_get? ha))
  refine ⟨?_, (swap_bodies room s st pair).ids⟩
  simp only [swap, Store.get_of_get? ha, Store.get_of_get? hb, Store.Written.andThen, hfirst, hsecond]

private theorem swapAll_isOk {room : Nat} (s : Settings α) {st : Store α} (h : st.Within (·.Portable room))
    {pairs : List Pair} (hpairs : ∀ pair ∈ pairs, pair.1 ∈ st.ids ∧ pair.2 ∈ st.ids) :
    (swapAll room s st pairs).result = .ok () := by
  induction pairs generalizing st with
  | nil => rfl
  | cons pair rest ih =>
    obtain ⟨⟨hfst, hsnd⟩, hrest⟩ := List.forall_mem_cons.mp hpairs
    obtain ⟨hswap, hids⟩ := swap_isOk s h hfst hsnd
    have hafter := (swap_deals room s h pair).within h
    simp only [swapAll, Store.Written.andThen, hswap]
    apply ih hafter
    rwa [hids]

end Collision

namespace World

theorem collide_deals {pool : Program α → Prop} {w : World α} (h : w.store.Within pool) (room : Nat) :
    Store.Deals pool w.store (w.collide room).2.1 (w.collide room).1.store := by
  simp only [collide, collideWith, Collision.passWith]
  split
  · exact .nil _
  · exact Collision.swapAll_deals _ _ h _

theorem collide_permuted {w : World α} {room : Nat} {swapped : List Pair}
    (h : (w.collide room).2.2 = .ok swapped) :
    ∃ σ, Store.PermutedBy σ w.store (w.collide room).1.store := by
  simp only [collide, collideWith, Collision.passWith] at h ⊢
  split at h
  · cases h
  · rename_i now _
    dsimp only at h ⊢
    cases hdone : (Collision.swapAll room w.settings w.store
        (Collision.matching (now.filter (!w.touching.contains ·)) [])).result with
    | error cause =>
      rw [hdone] at h
      cases h
    | ok done => exact Collision.swapAll_permuted hdone

/-- Where every program can be handed over, a pass goes through. -/
theorem collide_isOk {w : World α} {room : Nat} (hasc : w.store.Ascending) (hsized : w.store.Sized)
    (h : w.store.Within (·.Portable room)) : (w.collide room).2.2.isOk = true := by
  have hsize : ∀ a ∈ w.store.actors, ∃ x, a.size = .real x :=
    fun a ha => hsized a.id a (Store.get?_of_mem hasc ha)
  obtain ⟨now, hnow⟩ := Collision.overlapping_isOk fun a ha b hb => collides_isOk (hsize a ha) (hsize b hb)
  have hpairs : ∀ pair ∈ Collision.matching (now.filter (!w.touching.contains ·)) [],
      pair.1 ∈ w.store.ids ∧ pair.2 ∈ w.store.ids := by
    intro pair hpair
    exact Collision.mem_overlapping hnow pair (List.mem_of_mem_filter (Collision.matching_subset _ _ hpair))
  simp only [collide, collideWith, Collision.passWith, hnow, Collision.swapAll_isOk w.settings h hpairs]
  rfl

end World

end SpriteStage
