import SpriteStage.Engine.World
/-!
# Records under writes

A store is seen through `get?`: a write changes what is found under one id and nothing else.
`Status` is the part of a record that tells whether its actor runs, and `Actor.body` is a record
without its program.
-/
namespace SpriteStage

variable {α : Type}

namespace Store

/-- Ids ascend and lie below the next id. -/
structure Ascending (st : Store α) : Prop where
  sorted : st.ids.Pairwise (· < ·)
  below : ∀ id ∈ st.ids, id < st.nextId

theorem get?_id {st : Store α} {id : Int} {a : Actor α} (h : st.get? id = some a) : a.id = id := by
  have hfound := List.find?_some h
  simpa using hfound

theorem mem_of_get? {st : Store α} {id : Int} {a : Actor α} (h : st.get? id = some a) :
    a ∈ st.actors :=
  List.mem_of_find?_eq_some h

theorem get_eq_ok {st : Store α} {id : Int} {a : Actor α} :
    st.get id = .ok a ↔ st.get? id = some a := by
  unfold get
  split <;> simp_all

theorem get_of_get? {st : Store α} {id : Int} {a : Actor α} (h : st.get? id = some a) :
    st.get id = .ok a :=
  get_eq_ok.mpr h

theorem get?_eq_none {st : Store α} {id : Int} : st.get? id = none ↔ id ∉ st.ids := by
  simp [get?, ids]

theorem isSome_get? {st : Store α} {id : Int} : (st.get? id).isSome ↔ id ∈ st.ids := by
  cases h : st.get? id with
  | none => simpa using get?_eq_none.mp h
  | some a =>
    have hmem : a.id ∈ st.ids := List.mem_map_of_mem (mem_of_get? h)
    simpa [get?_id h] using hmem

private theorem find?_of_mem {l : List (Actor α)} (h : (l.map (·.id)).Pairwise (· < ·))
    {a : Actor α} (ha : a ∈ l) : l.find? (·.id == a.id) = some a := by
  induction l with
  | nil => simp at ha
  | cons b l ih =>
    simp only [List.map_cons, List.pairwise_cons] at h
    rcases List.mem_cons.mp ha with rfl | ha
    · simp
    · have hlt : b.id < a.id := h.1 a.id (List.mem_map_of_mem ha)
      have hne : (b.id == a.id) = false := by simp; omega
      rw [List.find?_cons, hne]
      exact ih h.2 ha

theorem get?_of_mem {st : Store α} (h : st.Ascending) {a : Actor α} (ha : a ∈ st.actors) :
    st.get? a.id = some a :=
  find?_of_mem h.sorted ha

theorem get?_replace (st : Store α) (b : Actor α) (id : Int) :
    (st.replace b).get? id = if id = b.id then (st.get? id).map fun _ => b else st.get? id := by
  obtain ⟨l, next⟩ := st
  simp only [get?, replace]
  induction l with
  | nil => simp
  | cons c l ih =>
    by_cases hc : c.id = b.id
    · by_cases hid : id = b.id
      · simp [hc, hid]
      · have hb : (b.id == id) = false := by simp; omega
        simp only [List.map_cons, hc, if_true, List.find?_cons, hb, hid, if_false] at ih ⊢
        rw [ih]
    · by_cases hcid : c.id = id
      · have hid : id ≠ b.id := by omega
        simp [hcid, hid]
      · have hc' : (c.id == id) = false := by simp; omega
        simp only [List.map_cons, hc, if_false, List.find?_cons, hc']
        exact ih

@[simp]
theorem ids_replace (st : Store α) (b : Actor α) : (st.replace b).ids = st.ids := by
  simp only [ids, replace, List.map_map]
  apply List.map_congr_left
  intro c _
  by_cases hc : c.id = b.id <;> simp [hc]

@[simp]
theorem nextId_replace (st : Store α) (b : Actor α) : (st.replace b).nextId = st.nextId := rfl

theorem Ascending.congr {st st' : Store α} (h : st.Ascending) (hids : st'.ids = st.ids)
    (hnext : st'.nextId = st.nextId) : st'.Ascending := by
  refine ⟨?_, ?_⟩
  · rw [hids]
    exact h.sorted
  · rw [hids, hnext]
    exact h.below

theorem get?_erase (st : Store α) (id j : Int) :
    (st.erase id).get? j = if j = id then none else st.get? j := by
  by_cases hj : j = id
  · subst hj
    simp [get?, erase]
  · simp only [get?, erase, hj, if_false, List.find?_filter]
    congr 1
    funext a
    by_cases ha : a.id = j
    · simp [ha, hj]
    · simp [ha]

theorem ids_erase (st : Store α) (id : Int) : (st.erase id).ids = st.ids.filter (· != id) := by
  simp only [ids, erase, List.filter_map]
  rfl

theorem Ascending.erase {st : Store α} (h : st.Ascending) (id : Int) : (st.erase id).Ascending := by
  refine ⟨?_, ?_⟩
  · rw [ids_erase]
    exact h.sorted.filter _
  · intro j hj
    rw [ids_erase] at hj
    exact h.below j (List.mem_filter.mp hj).1

private theorem eq_of_find? {l l' : List (Actor α)} (hids : l.map (·.id) = l'.map (·.id))
    (h : (l.map (·.id)).Pairwise (· < ·))
    (hget : ∀ id, l.find? (·.id == id) = l'.find? (·.id == id)) : l = l' := by
  apply List.ext_getElem
  · simpa using congrArg List.length hids
  · intro i hi hi'
    have hid : l[i].id = l'[i].id := by
      have := congrArg (fun m => m[i]?) hids
      simpa [hi, hi'] using this
    have h' : (l'.map (·.id)).Pairwise (· < ·) := hids ▸ h
    have hfound := hget l[i].id
    rw [find?_of_mem h (List.getElem_mem hi), hid, find?_of_mem h' (List.getElem_mem hi')] at hfound
    exact Option.some.inj hfound

theorem actors_eq_of_get? {st st' : Store α} (h : st.Ascending) (hids : st'.ids = st.ids)
    (hget : ∀ id, st'.get? id = st.get? id) : st'.actors = st.actors := by
  have hsorted : st'.ids.Pairwise (· < ·) := hids ▸ h.sorted
  exact eq_of_find? hids hsorted hget

end Store

/-- What a record tells about the run of its actor. -/
structure Status (α : Type) where
  isRunning : Value α
  stepIndex : Value α
  message : Value α

namespace Status

def idle : Status α := ⟨.bool false, .null, .null⟩

def busy (index : Int) (message : Value α) : Status α := ⟨.bool true, .int index, message⟩

end Status

namespace Actor

def status (a : Actor α) : Status α := ⟨a.isRunning, a.stepIndex, a.message⟩

def body (a : Actor α) : Actor α := { a with program := [] }

def moved [Scalar α] (s : Settings α) (a : Actor α) (point : Point α) : Actor α :=
  { a with
    position := s.confine point
    trail := Store.newest (s.maxTrail - 1).toNat a.trail ++ [point] }

end Actor

namespace Patch

def onStatus (p : Patch α) (x : Status α) : Status α :=
  ⟨p.isRunning.getD x.isRunning, p.stepIndex.getD x.stepIndex, p.message.getD x.message⟩

@[simp]
theorem apply_id (p : Patch α) (a : Actor α) : (p.apply a).id = a.id := rfl

@[simp]
theorem program_normalise [Scalar α] (p : Patch α) (s : Settings α) :
    (p.normalise s).program = p.program := rfl

/-- A patch that gives no size but a number. -/
def Sized (p : Patch α) : Prop := ∀ size, p.size = some size → ∃ x, size = .real x

theorem Sized.apply {p : Patch α} (h : p.Sized) {a : Actor α} (ha : ∃ x, a.size = .real x) :
    ∃ x, (p.apply a).size = .real x := by
  change ∃ x, p.size.getD a.size = .real x
  cases hsize : p.size with
  | none => exact ha
  | some size => exact h size hsize

end Patch

def Store.Sized (st : Store α) : Prop := ∀ id a, st.get? id = some a → ∃ x, a.size = .real x

theorem Store.Sized.replace {st : Store α} (h : st.Sized) {b : Actor α} (hb : ∃ x, b.size = .real x) :
    (st.replace b).Sized := by
  intro id a ha
  rw [get?_replace] at ha
  split at ha
  · obtain ⟨-, -, rfl⟩ := Option.map_eq_some_iff.mp ha
    exact hb
  · exact h id a ha

theorem Store.Sized.give {st : Store α} (h : st.Sized) {id : Int} {a : Actor α} (ha : st.get? id = some a)
    (p : Program α) : (st.replace { a with program := p }).Sized :=
  h.replace (b := { a with program := p }) (h id a ha)

namespace World

def status? (w : World α) (id : Int) : Option (Status α) := (w.store.get? id).map Actor.status

/-- What writes leave alone: everything but the records and the memory of the collision passes. -/
structure SameFrame (w w' : World α) : Prop where
  settings : w'.settings = w.settings
  catalog : w'.catalog = w.catalog
  room : w'.room = w.room
  runRoom : w'.runRoom = w.runRoom
  nextId : w'.store.nextId = w.store.nextId
  ids : w'.store.ids = w.store.ids

namespace SameFrame

theorem refl (w : World α) : SameFrame w w := ⟨rfl, rfl, rfl, rfl, rfl, rfl⟩

theorem trans {w w₁ w₂ : World α} (h : SameFrame w w₁) (h' : SameFrame w₁ w₂) : SameFrame w w₂ :=
  ⟨h'.settings.trans h.settings, h'.catalog.trans h.catalog, h'.room.trans h.room,
    h'.runRoom.trans h.runRoom, h'.nextId.trans h.nextId, h'.ids.trans h.ids⟩

end SameFrame

variable [Scalar α]

theorem write_eq_ok {w w' : World α} {actor : Int} {p : Patch α} {out : List (Signal α)} :
    w.write actor p = .ok (w', out) ↔ ∃ a, w.store.get? actor = some a ∧
      w' = { w with store := w.store.replace ((p.normalise w.settings).apply a) } ∧
      out = [.event ⟨actor, .wrote (p.normalise w.settings) none⟩] := by
  unfold write Store.write
  cases h : w.store.get? actor with
  | none => simp [Store.get, h, bind, Except.bind]
  | some a =>
    simp only [Store.get, h, bind, Except.bind, pure, Except.pure, Except.ok.injEq, Prod.mk.injEq,
      Option.some.injEq, exists_eq_left']
    constructor
    · rintro ⟨rfl, rfl⟩
      exact ⟨rfl, rfl⟩
    · rintro ⟨rfl, rfl⟩
      exact ⟨rfl, rfl⟩

theorem write_of_get? {w : World α} {actor : Int} {a : Actor α} (h : w.store.get? actor = some a)
    (p : Patch α) :
    w.write actor p =
      .ok ({ w with store := w.store.replace ((p.normalise w.settings).apply a) },
        [.event ⟨actor, .wrote (p.normalise w.settings) none⟩]) :=
  write_eq_ok.mpr ⟨a, h, rfl, rfl⟩

theorem glide_eq_ok {w w' : World α} {actor : Int} {point : Point α} {out : List (Signal α)} :
    w.glide actor point = .ok (w', out) ↔ ∃ a, w.store.get? actor = some a ∧
      w' = { w with store := w.store.replace (a.moved w.settings point) } ∧
      out = [.event ⟨actor, .wrote { position := some (w.settings.confine point) } (some point)⟩] := by
  unfold glide Store.extendTrail
  cases h : w.store.get? actor with
  | none => simp [Store.get, h, bind, Except.bind]
  | some a =>
    simp only [Store.get, h, bind, Except.bind, pure, Except.pure, Except.ok.injEq, Prod.mk.injEq,
      Option.some.injEq, exists_eq_left']
    constructor
    · rintro ⟨rfl, rfl⟩
      exact ⟨rfl, rfl⟩
    · rintro ⟨rfl, rfl⟩
      exact ⟨rfl, rfl⟩

theorem get?_write {w w' : World α} {actor : Int} {p : Patch α} {out : List (Signal α)}
    (h : w.write actor p = .ok (w', out)) (id : Int) :
    w'.store.get? id =
      if id = actor then (w.store.get? id).map (p.normalise w.settings).apply
      else w.store.get? id := by
  obtain ⟨a, ha, rfl, -⟩ := write_eq_ok.mp h
  have hid : a.id = actor := Store.get?_id ha
  rw [Store.get?_replace]
  by_cases hj : id = actor
  · subst hj
    simp [hid, ha]
  · simp [hid, hj]

theorem get?_glide {w w' : World α} {actor : Int} {point : Point α} {out : List (Signal α)}
    (h : w.glide actor point = .ok (w', out)) (id : Int) :
    w'.store.get? id =
      if id = actor then (w.store.get? id).map (·.moved w.settings point) else w.store.get? id := by
  obtain ⟨a, ha, rfl, -⟩ := glide_eq_ok.mp h
  have hid : (a.moved w.settings point).id = actor := by
    change a.id = actor
    exact Store.get?_id ha
  rw [Store.get?_replace, hid]
  by_cases hj : id = actor
  · subst hj
    simp [ha]
  · simp [hj]

theorem frame_glide {w w' : World α} {actor : Int} {point : Point α} {out : List (Signal α)}
    (h : w.glide actor point = .ok (w', out)) : SameFrame w w' := by
  obtain ⟨a, -, rfl, -⟩ := glide_eq_ok.mp h
  exact ⟨rfl, rfl, rfl, rfl, rfl, Store.ids_replace _ _⟩

theorem frame_write {w w' : World α} {actor : Int} {p : Patch α} {out : List (Signal α)}
    (h : w.write actor p = .ok (w', out)) : SameFrame w w' := by
  obtain ⟨a, -, rfl, -⟩ := write_eq_ok.mp h
  exact ⟨rfl, rfl, rfl, rfl, rfl, Store.ids_replace _ _⟩

theorem status?_write {w w' : World α} {actor : Int} {p : Patch α} {out : List (Signal α)}
    (h : w.write actor p = .ok (w', out)) (id : Int) :
    w'.status? id = if id = actor then (w.status? id).map p.onStatus else w.status? id := by
  simp only [status?, get?_write h]
  by_cases hj : id = actor
  · simp only [hj, if_true, Option.map_map]
    rfl
  · simp [hj]

end World

end SpriteStage
