import SpriteStage.Proofs.Refusals
import SpriteStage.Proofs.Rendering
/-!
# Merging fields into a record

A request names some fields of an actor and what to store there. Either something can be said
against it and nothing happens, or the record is replaced by one that has the given values under
those names and is the same under all others. A point that is added to the trail makes the trail
one more field of the request, but the event tells the point alone.
-/
namespace SpriteStage

variable {α : Type}

/-! ## Fields under their names -/

/-- The patch that names all fields and leaves an actor as it is. -/
def Actor.whole (a : Actor α) : Patch α where
  name := some a.name
  position := some a.position
  heading := some a.heading
  size := some a.size
  look := some a.look
  program := some a.program
  isRunning := some a.isRunning
  stepIndex := some a.stepIndex
  message := some a.message
  trail := some a.trail

private theorem Fields.isSome_get? {fs : Fields α} {name : String} :
    (fs.get? name).isSome = true ↔ name ∈ fs.names := by
  simp [get?, names, List.lookup_isSome_iff]

private theorem Fields.get?_append (fs gs : Fields α) (name : String) :
    get? (fs ++ gs) name = (fs.get? name).or (gs.get? name) := by
  induction fs with
  | nil => rfl
  | cons entry rest ih =>
    obtain ⟨n, v⟩ := entry
    rw [List.cons_append, get?_cons, get?_cons, ih]
    split <;> rfl

namespace Patch

private theorem apply_override (p q : Patch α) (a : Actor α) : (p.override q).apply a = q.apply (p.apply a) := by
  simp [apply, override]

private theorem whole_apply (p : Patch α) (a : Actor α) : (p.apply a).whole = a.whole.override p := by
  simp [Actor.whole, apply, override]

variable [Scalar α]

private theorem normalise_override (s : Settings α) (p q : Patch α) :
    (p.override q).normalise s = (p.normalise s).override (q.normalise s) := by
  simp [normalise, override, Option.map_or]

private theorem field?_override (p q : Patch α) (name : String) :
    (p.override q).field? name = (q.field? name).or (p.field? name) := by
  unfold field?
  split <;> simp [override, Option.map_or]

private theorem mem_names_view {p : Patch α} {name : String} :
    name ∈ p.view.names ↔ (p.field? name).isSome = true := by
  rw [← Fields.isSome_get?, p.get?_view]

private theorem field?_trail (p : Patch α) (o : Option (List (Point α))) (name : String) :
    ({ p with trail := o } : Patch α).field? name =
      if name = "trail" then o.map fun points => .list (points.map Point.view) else p.field? name := by
  unfold field?
  split <;> simp_all

private theorem isSome_field?_normalise (s : Settings α) (p : Patch α) (name : String) :
    ((p.normalise s).field? name).isSome = (p.field? name).isSome := by
  unfold field?
  split <;> simp [normalise]

end Patch

section Stored

variable [Scalar α]

/-- What is stored in a record under the name of a field, as a free value. -/
def Actor.stored? (a : Actor α) (name : String) : Option (Value α) := a.whole.field? name

private theorem Actor.stored?_apply (p : Patch α) (a : Actor α) (name : String) :
    (p.apply a).stored? name = (p.field? name).or (a.stored? name) := by
  rw [stored?, p.whole_apply, Patch.field?_override]
  rfl

end Stored

/-! ## Requests -/

/-- The error that a computation ends in, if it does. -/
def raisedBy {β : Type} : Except Error β → Option Error
  | .error cause => some cause
  | .ok _ => none

namespace Answers

variable {β : Type}

private theorem ofRaised (x : Except Error β) : Answers [raisedBy x] (fun r => x = .ok r) x := by
  cases x with
  | error cause => exact rfl
  | ok r => exact ⟨r, rfl, rfl⟩

private theorem result {l : List (Option Error)} {good : β → Prop} {x : Except Error β} (h : Answers l good x) :
    Answers l (fun r => x = .ok r ∧ good r) x := by
  unfold Answers at *
  split at h
  · exact h
  · obtain ⟨r, hx, hr⟩ := h
    exact ⟨r, hx, hx, hr⟩

private theorem isOk {l : List (Option Error)} {good : β → Prop} {x : Except Error β} (h : Answers l good x) :
    firstRaised l = none ↔ ∃ r, x = .ok r := by
  unfold Answers at h
  split at h
  · rename_i cause hcause
    rw [hcause, h]
    simp
  · rename_i hnone
    obtain ⟨r, hx, -⟩ := h
    exact ⟨fun _ => ⟨r, hx⟩, fun _ => hnone⟩

end Answers

namespace FieldRequest

variable [Scalar α]

omit [Scalar α] in
theorem convert_answers {β γ : Type} (f : β → Except Error γ) (o : Option β) :
    Answers [o.bind fun v => raisedBy (f v)] (fun r => convert f o = .ok r ∧ r.isSome = o.isSome)
      (convert f o) := by
  cases o with
  | none => exact ⟨none, rfl, rfl, rfl⟩
  | some v =>
    refine (Answers.ofRaised (f v)).map fun r hr => ⟨?_, rfl⟩
    rw [convert, hr]
    rfl

def asks (r : FieldRequest α) : String → Bool
  | "display_name" => r.plain.name.isSome
  | "position" => r.position.isSome
  | "heading" => r.heading.isSome
  | "size" => r.plain.size.isSome
  | "visual_tag" => r.plain.look.isSome
  | "program" => r.plain.program.isSome
  | "is_running" => r.plain.isRunning.isSome
  | "current_step_index" => r.plain.stepIndex.isSome
  | "message" => r.plain.message.isSome
  | "trail" => r.plain.trail.isSome
  | _ => false

/-- The names in a request: those of fields and others. -/
def Names (r : FieldRequest α) (name : String) : Prop := name ∈ r.unknown ∨ r.asks name = true

omit [Scalar α] in
theorem names_of_asks {r r' : FieldRequest α} {name : String} (hunknown : r'.unknown = r.unknown)
    (hname : r'.asks name = true) (hothers : ∀ x, x ≠ name → r'.asks x = r.asks x) (x : String) :
    r'.Names x ↔ r.Names x ∨ x = name := by
  by_cases hx : x = name
  · subst hx
    exact ⟨fun _ => .inr rfl, fun _ => .inr hname⟩
  · rw [Names, Names, hunknown, hothers x hx, or_iff_left hx]

private theorem add_names {n m : Nat} {r r' : FieldRequest α} {name : String} {v : Value α}
    (h : r.add n name v = (m, .ok r')) (x : String) : r'.Names x ↔ r.Names x ∨ x = name := by
  have hbuilt : ∀ {β : Type} {y : Except Error β} {f : β → FieldRequest α}, y.map f = .ok r' → ∃ b, f b = r' := by
    intro β y f hy
    cases y with
    | error cause => cases hy
    | ok b => exact ⟨b, Except.ok.inj hy⟩
  unfold add at h
  split at h
  case h_11 =>
    cases h
    simp [Names, asks, or_right_comm]
  -- the name of a field, and the requests differ in that field alone
  all_goals
    first
    | cases h
    | obtain ⟨_, rfl⟩ := hbuilt (Prod.mk.inj h).2
    refine names_of_asks ?_ ?_ (fun x hx => ?_) x
    · rfl
    · rfl
    · unfold asks
      grind

/-- A request names what it was read from. -/
theorem read_names {n m : Nat} {fs : Fields α} {r r' : FieldRequest α} (h : read n r fs = (m, .ok r')) (x : String) :
    r'.Names x ↔ r.Names x ∨ x ∈ fs.names := by
  induction fs generalizing n r with
  | nil =>
    cases h
    simp [Fields.names]
  | cons entry rest ih =>
    obtain ⟨name, v⟩ := entry
    rw [read] at h
    split at h
    · cases h
    · rename_i hadd
      rw [ih h, add_names hadd, or_assoc]
      exact or_congr_right List.mem_cons.symm

/-! ### What can be said against a request -/

/-- Against names that are no fields, or no fields that can change. -/
def unfamiliar (r : FieldRequest α) : Option Error :=
  raisedIf (r.unknown ≠ []) (.unknownFields (r.unknown.mergeSort fun a b => !Text.before b a))

/-- All that can be said against a request, in the order in which it counts. -/
def objections (r : FieldRequest α) : List (Option Error) :=
  [r.unfamiliar, r.heading.bind fun v => raisedBy v.toScalar,
    r.position.bind fun v => raisedBy (Point.ofValue v)]

private theorem toPatch_answers (r : FieldRequest α) :
    Answers r.objections (fun q => r.toPatch = .ok q ∧ ∀ name, (q.field? name).isSome = true ↔ r.Names name)
      r.toPatch := by
  apply Answers.result
  by_cases hunknown : r.unknown = []
  · have hfamiliar : r.unfamiliar = none := if_neg (not_not.mpr hunknown)
    have hempty : r.unknown.isEmpty = true := by rw [hunknown]; rfl
    rw [objections, hfamiliar, toPatch, if_pos hempty]
    refine (convert_answers Value.toScalar r.heading).bind (l := [_]) fun heading hheading => ?_
    refine (convert_answers Point.ofValue r.position).bind (l := []) fun position hposition => ?_
    refine ⟨_, rfl, fun name => ?_⟩
    have hasks : (({ r.plain with heading, position } : Patch α).field? name).isSome = r.asks name := by
      unfold Patch.field? asks
      split <;> simp [hheading.2, hposition.2]
    rw [hasks, Names, hunknown]
    simp
  · have hunfamiliar : r.unfamiliar = some _ := if_pos hunknown
    have hfull : ¬ r.unknown.isEmpty = true := by simpa using hunknown
    rw [objections, hunfamiliar, toPatch, if_neg hfull]
    exact rfl

/-! ### Two requests at once -/

/-- Both requests at once; where both name a field the second counts. -/
def override (f g : FieldRequest α) : FieldRequest α where
  plain := f.plain.override g.plain
  heading := g.heading.or f.heading
  position := g.position.or f.position
  unknown := f.unknown ++ g.unknown

private theorem toPatch_eq_ok {r : FieldRequest α} {q : Patch α} :
    r.toPatch = .ok q ↔ r.unknown = [] ∧ ∃ heading position,
    convert Value.toScalar r.heading = .ok heading ∧ convert Point.ofValue r.position = .ok position ∧
      q = { r.plain with heading, position } := by
  rw [toPatch]
  by_cases hunknown : r.unknown = []
  · have hempty : r.unknown.isEmpty = true := by rw [hunknown]; rfl
    rw [if_pos hempty]
    constructor
    · intro h
      obtain ⟨heading, hheading, h⟩ := bind_eq_ok h
      obtain ⟨position, hposition, h⟩ := bind_eq_ok h
      cases h
      exact ⟨hunknown, heading, position, hheading, hposition, rfl⟩
    · rintro ⟨-, heading, position, hheading, hposition, rfl⟩
      rw [hheading, hposition]
      rfl
  · have hfull : ¬ r.unknown.isEmpty = true := by simpa using hunknown
    rw [if_neg hfull]
    constructor
    · intro h
      cases h
    · intro h
      exact absurd h.1 hunknown

omit [Scalar α] in
theorem convert_or {β γ : Type} {f : β → Except Error γ} {o o' : Option β} {x x' : Option γ}
    (h : convert f o = .ok x) (h' : convert f o' = .ok x') : convert f (o'.or o) = .ok (x'.or x) := by
  cases o' with
  | none =>
    cases h'
    exact h
  | some v =>
    obtain ⟨y, rfl⟩ : ∃ y, x' = some y := by
      rw [convert] at h'
      cases hv : f v with
      | error cause =>
        rw [hv] at h'
        cases h'
      | ok y =>
        rw [hv] at h'
        exact ⟨y, (Except.ok.inj h').symm⟩
    exact h'

private theorem toPatch_override {f g : FieldRequest α} {p q : Patch α} (hp : f.toPatch = .ok p)
    (hq : g.toPatch = .ok q) :
    (f.override g).toPatch = .ok (p.override q) := by
  obtain ⟨hunknown, heading, position, hheading, hposition, rfl⟩ := toPatch_eq_ok.mp hp
  obtain ⟨hunknown', heading', position', hheading', hposition', rfl⟩ := toPatch_eq_ok.mp hq
  refine toPatch_eq_ok.mpr ⟨?_, _, _, convert_or hheading hheading', convert_or hposition hposition', ?_⟩
  · rw [override, hunknown, hunknown', List.append_nil]
  · simp [override, Patch.override]

end FieldRequest

namespace Store

/-! ## Replaced records -/

section Records

variable {st : Store α} {a b : Actor α}

private theorem replace_replace (st : Store α) (h : b.id = a.id) : (st.replace a).replace b = st.replace b := by
  simp only [replace, List.map_map]
  congr 1
  apply List.map_congr_left
  intro c _
  by_cases hc : c.id = a.id <;> simp [hc, h]

private theorem replace_comm (st : Store α) (h : a.id ≠ b.id) :
    (st.replace a).replace b = (st.replace b).replace a := by
  simp only [replace, List.map_map]
  congr 1
  apply List.map_congr_left
  intro c _
  by_cases ha : c.id = a.id
  · simp [ha, h]
  · by_cases hb : c.id = b.id
    · simp [hb, Ne.symm h]
    · simp [ha, hb]

private theorem get?_replace_same (ha : st.get? a.id = some a) (h : b.id = a.id) :
    (st.replace b).get? a.id = some b := by
  rw [get?_replace, if_pos h.symm, ha, Option.map_some]

private theorem get?_replace_other (st : Store α) {id : Int} (h : id ≠ b.id) :
    (st.replace b).get? id = st.get? id := by
  rw [get?_replace, if_neg h]

private theorem publish_store (room : Nat) (st st' : Store α) (e : Event α) :
    (st.publish room (.ok (st', e))).store = st' := by
  unfold publish
  split
  · rename_i h
    cases h
  · rename_i h
    cases h
    split <;> rfl

private theorem publish_told {room : Nat} {st st' : Store α} {e : Event α}
    (h : e.obstacle? (room - tellSteps) = none) :
    st.publish room (.ok (st', e)) = ⟨st', [.event e], .ok ()⟩ := by
  simp only [publish, h]

private theorem newest_concat {β : Type} (n : Nat) (l : List β) (x : β) :
    newest n l ++ [x] = newest (n + 1) (l ++ [x]) := by
  have hlength : (l ++ [x]).length - (n + 1) = l.length - n := by
    rw [List.length_append, List.length_singleton]
    omega
  rw [newest, newest, hlength, List.drop_append_of_le_length (Nat.sub_le _ _)]

end Records

variable [Scalar α]

/-! ## Merges -/

/-- Merges what a request asks for into the record of an actor, and tells so with room for some steps down. -/
def merge (room : Nat) (s : Settings α) (st : Store α) (id : Int) (r : FieldRequest α) : Written α :=
  st.publish room (st.update s id r)

def mergeTrail (room : Nat) (s : Settings α) (st : Store α) (id : Int) (point : Point α) (r : FieldRequest α) :
    Written α :=
  st.publish room (st.updateTrail s id point r)

/-- All that can be said against a merge, in the order in which it counts. -/
def objections (st : Store α) (id : Int) (r : FieldRequest α) : List (Option Error) :=
  raisedIf (id ∉ st.ids) (.actorNotFound id) :: r.objections

/-- How a merge goes: some fields of a record are written, and an event tells the values under some keys. -/
structure Merges (room : Nat) (st : Store α) (a b : Actor α) (e : Event α) (fields keys : String → Prop)
    (w : Written α) : Prop where
  same : b.id = a.id
  stored : w.store = st.replace b
  found : w.store.get? a.id = some b
  others : ∀ id, id ≠ a.id → w.store.get? id = st.get? id
  kept : ∀ name, ¬ fields name → b.stored? name = a.stored? name
  about : e.actor = a.id
  keyed : ∀ name, name ∈ e.changed.names ↔ keys name
  /-- What is told about a field is what is stored in it. -/
  shown : ∀ name, fields name → keys name → e.changed.get? name = b.stored? name
  /-- If the event can be told then it is, and nothing else. -/
  told : e.obstacle? (room - tellSteps) = none → w.out = [.event e] ∧ w.result = .ok ()

private theorem update_answers (s : Settings α) (st : Store α) (id : Int) (r : FieldRequest α) :
    Answers (st.objections id r) (fun done => ∃ a q, st.get? id = some a ∧ r.toPatch = .ok q ∧
      (∀ name, (q.field? name).isSome = true ↔ r.Names name) ∧
      done = (st.replace ((q.normalise s).apply a), ⟨id, .wrote (q.normalise s) none⟩)) (st.update s id r) := by
  refine (st.get_answers id).bind fun a ha => ?_
  refine (r.toPatch_answers.bind (l := []) fun q hq => ?_)
  refine ⟨_, ?_, a, q, ha, hq.1, hq.2, rfl⟩
  rw [write, get_of_get? ha]
  rfl

private theorem updateTrail_answers (s : Settings α) (st : Store α) (id : Int) (point : Point α)
    (r : FieldRequest α) :
    Answers (st.objections id r) (fun done => ∃ a q, st.get? id = some a ∧ r.toPatch = .ok q ∧
      (∀ name, (q.field? name).isSome = true ↔ r.Names name) ∧
      done = (st.replace (({ q.normalise s with trail := some (newest (s.maxTrail - 1).toNat a.trail ++ [point]) } :
        Patch α).apply a), ⟨id, .wrote { q.normalise s with trail := none } (some point)⟩))
      (st.updateTrail s id point r) := by
  refine (st.get_answers id).bind fun a ha => ?_
  refine (r.toPatch_answers.bind (l := []) fun q hq => ?_)
  refine ⟨_, ?_, a, q, ha, hq.1, hq.2, rfl⟩
  rw [extendTrail, get_of_get? ha]
  rfl

private theorem publish_merges {room : Nat} {st : Store α} {id : Int} {a : Actor α} (ha : st.get? id = some a)
    {p t : Patch α} {trailPoint : Option (Point α)} {fields keys : String → Prop}
    (hfields : ∀ name, (p.field? name).isSome = true ↔ fields name)
    (hkeys : ∀ name, name ∈ (⟨id, .wrote t trailPoint⟩ : Event α).changed.names ↔ keys name)
    (hshown : ∀ name, fields name → keys name →
      (⟨id, .wrote t trailPoint⟩ : Event α).changed.get? name = p.field? name) :
    Merges room st a (p.apply a) ⟨id, .wrote t trailPoint⟩ fields keys
      (st.publish room (.ok (st.replace (p.apply a), ⟨id, .wrote t trailPoint⟩))) := by
  have hid := get?_id ha
  subst hid
  refine ⟨rfl, publish_store _ _ _ _, ?_, ?_, ?_, rfl, hkeys, ?_, ?_⟩
  · rw [publish_store]
    exact get?_replace_same ha rfl
  · intro id hne
    rw [publish_store]
    exact get?_replace_other st hne
  · intro name hname
    have hnone : p.field? name = none := by
      rw [← Option.not_isSome_iff_eq_none, hfields]
      exact hname
    rw [Actor.stored?_apply, hnone, Option.none_or]
  · intro name hname hkey
    obtain ⟨v, hv⟩ := Option.isSome_iff_exists.mp ((hfields name).mpr hname)
    rw [hshown name hname hkey, Actor.stored?_apply, hv, Option.some_or]
  · intro htold
    rw [publish_told htold]
    exact ⟨rfl, rfl⟩

/-- A merge is refused, and nothing happens, or a record gets the fields that are asked for. -/
theorem merge_answers (room : Nat) (s : Settings α) (st : Store α) (id : Int) (r : FieldRequest α) :
    match firstRaised (st.objections id r) with
    | some cause => st.merge room s id r = ⟨st, [], .error cause⟩
    | none => ∃ a q, st.get? id = some a ∧ r.toPatch = .ok q ∧
        Merges room st a ((q.normalise s).apply a) ⟨id, .wrote (q.normalise s) none⟩ r.Names r.Names
          (st.merge room s id r) := by
  have hanswers := st.update_answers s id r
  unfold merge
  cases hraised : firstRaised (st.objections id r) with
  | some cause =>
    simp only [Answers, hraised] at hanswers
    dsimp only
    rw [hanswers]
    rfl
  | none =>
    simp only [Answers, hraised] at hanswers
    obtain ⟨done, hdone, a, q, ha, hq, hnames, rfl⟩ := hanswers
    dsimp only
    rw [hdone]
    have hnamed : ∀ name, ((q.normalise s).field? name).isSome = true ↔ r.Names name := fun name => by
      rw [Patch.isSome_field?_normalise, hnames]
    have hchanged : (⟨id, .wrote (q.normalise s) none⟩ : Event α).changed = (q.normalise s).view := List.append_nil _
    refine ⟨a, q, ha, hq, publish_merges ha hnamed (fun name => ?_) fun name _ _ => ?_⟩
    · rw [hchanged, Patch.mem_names_view, hnamed]
    · rw [hchanged, Patch.get?_view]

private theorem changed_point (id : Int) (p : Patch α) (point : Point α) (name : String) :
    (⟨id, .wrote { p with trail := none } (some point)⟩ : Event α).changed.get? name =
      if name = "trail" then none
      else if name = "trail_point" then some point.view
      else p.field? name := by
  have hchanged : (⟨id, .wrote { p with trail := none } (some point)⟩ : Event α).changed =
      ({ p with trail := none } : Patch α).view ++ [("trail_point", point.view)] := rfl
  rw [hchanged, Fields.get?_append, Patch.get?_view, Patch.field?_trail, Fields.get?_cons]
  by_cases htrail : name = "trail"
  · subst htrail
    rfl
  · by_cases hpoint : name = "trail_point"
    · subst hpoint
      rfl
    · rw [if_neg htrail, if_neg htrail, if_neg hpoint, if_neg hpoint]
      exact Option.or_none

/-- A merge with a new point is refused, and nothing happens, or a record gets the fields that are asked for and the
newest points with the new one at the end. The event tells the point in place of the trail. -/
theorem mergeTrail_answers (room : Nat) (s : Settings α) (st : Store α) (id : Int) (point : Point α)
    (r : FieldRequest α) :
    match firstRaised (st.objections id r) with
    | some cause => st.mergeTrail room s id point r = ⟨st, [], .error cause⟩
    | none => ∃ a q trail, st.get? id = some a ∧ r.toPatch = .ok q ∧
        trail = newest (max 1 s.maxTrail).toNat (a.trail ++ [point]) ∧
        (⟨id, .wrote { q.normalise s with trail := none } (some point)⟩ : Event α).changed.get? "trail_point" =
          some point.view ∧
        Merges room st a (({ q.normalise s with trail := some trail } : Patch α).apply a)
          ⟨id, .wrote { q.normalise s with trail := none } (some point)⟩
          (fun name => r.Names name ∨ name = "trail")
          (fun name => (r.Names name ∧ name ≠ "trail") ∨ name = "trail_point")
          (st.mergeTrail room s id point r) := by
  have hanswers := st.updateTrail_answers s id point r
  unfold mergeTrail
  cases hraised : firstRaised (st.objections id r) with
  | some cause =>
    simp only [Answers, hraised] at hanswers
    dsimp only
    rw [hanswers]
    rfl
  | none =>
    simp only [Answers, hraised] at hanswers
    obtain ⟨done, hdone, a, q, ha, hq, hnames, rfl⟩ := hanswers
    dsimp only
    rw [hdone]
    have hkept : (s.maxTrail - 1).toNat + 1 = (max 1 s.maxTrail).toNat := by omega
    have hnamed : ∀ name, ((q.normalise s).field? name).isSome = true ↔ r.Names name := fun name => by
      rw [Patch.isSome_field?_normalise, hnames]
    have hfree : ¬ r.Names "trail_point" := fun h => by
      have hfield := (hnames _).mpr h
      cases hfield
    refine ⟨a, q, _, ha, hq, by rw [newest_concat, hkept], ?_, publish_merges ha (fun name => ?_) (fun name => ?_)
      fun name hfield hkey => ?_⟩
    · rw [changed_point, if_neg (by decide), if_pos rfl]
    · rw [Patch.field?_trail]
      by_cases htrail : name = "trail"
      · simp [htrail]
      · simp [htrail, hnamed]
    · rw [← Fields.isSome_get?, changed_point]
      by_cases htrail : name = "trail"
      · simp [htrail]
      · by_cases hpoint : name = "trail_point"
        · simp [hpoint]
        · simp [htrail, hpoint, hnamed]
    · have htrail : name ≠ "trail" := by
        rintro rfl
        rcases hkey with hkey | hkey
        · exact hkey.2 rfl
        · exact absurd hkey (by decide)
      have hpoint : name ≠ "trail_point" := fun heq => hfree (heq ▸ hfield.resolve_right htrail)
      rw [changed_point, if_neg htrail, if_neg hpoint]
      exact ((Patch.field?_trail _ _ _).trans (if_neg htrail)).symm

/-! ## Merges one after the other -/

section Laws

variable {room : Nat} {s : Settings α} {st : Store α} {id other : Int} {a : Actor α} {f g r : FieldRequest α}
  {p q : Patch α}

private theorem update_of_toPatch (s : Settings α) (ha : st.get? id = some a) (hq : r.toPatch = .ok q) :
    st.update s id r = .ok (st.replace ((q.normalise s).apply a), ⟨id, .wrote (q.normalise s) none⟩) := by
  rw [update, get_of_get? ha, hq]
  change st.write s id q = _
  rw [write, get_of_get? ha]
  rfl

private theorem merge_store (room : Nat) (s : Settings α) (ha : st.get? id = some a) (hq : r.toPatch = .ok q) :
    (st.merge room s id r).store = st.replace ((q.normalise s).apply a) := by
  rw [merge, update_of_toPatch s ha hq, publish_store]

private theorem merge_store_of_refused (room : Nat) (s : Settings α)
    (h : st.get? id = none ∨ ∃ cause, r.toPatch = .error cause) :
    (st.merge room s id r).store = st := by
  have hupdate : ∃ cause, st.update s id r = .error cause := by
    rw [update, get]
    rcases h with h | ⟨cause, h⟩
    · rw [h]
      exact ⟨_, rfl⟩
    · cases st.get? id with
      | none => exact ⟨_, rfl⟩
      | some a =>
        rw [h]
        exact ⟨_, rfl⟩
  obtain ⟨cause, hupdate⟩ := hupdate
  rw [merge, hupdate]
  rfl

private theorem granted (h : firstRaised (st.objections id r) = none) :
    ∃ a q, st.get? id = some a ∧ r.toPatch = .ok q := by
  have hgranted := st.update_answers Settings.standard id r
  unfold Answers at hgranted
  rw [h] at hgranted
  obtain ⟨-, -, a, q, ha, hq, -⟩ := hgranted
  exact ⟨a, q, ha, hq⟩

private theorem merge_merge (hf : firstRaised (st.objections id f) = none)
    (hg : firstRaised ((st.merge room s id f).store.objections id g) = none) :
    firstRaised (st.objections id (f.override g)) = none ∧
      ((st.merge room s id f).store.merge room s id g).store = (st.merge room s id (f.override g)).store := by
  obtain ⟨a, p, ha, hp⟩ := granted hf
  obtain ⟨-, q, -, hq⟩ := granted hg
  have hboth := FieldRequest.toPatch_override hp hq
  have hid := get?_id ha
  subst hid
  have hfirst : (st.merge room s a.id f).store.get? a.id = some ((p.normalise s).apply a) := by
    rw [merge_store room s ha hp]
    exact get?_replace_same ha rfl
  have hsame : ((q.normalise s).apply ((p.normalise s).apply a)).id = ((p.normalise s).apply a).id := rfl
  refine ⟨(st.update_answers s a.id (f.override g)).isOk.mpr ⟨_, update_of_toPatch s ha hboth⟩, ?_⟩
  rw [merge_store room s hfirst hq, merge_store room s ha hp, merge_store room s ha hboth, replace_replace _ hsame,
    Patch.normalise_override, Patch.apply_override]

private theorem merge_cases (st : Store α) (id : Int) (r : FieldRequest α) :
    (st.get? id = none ∨ ∃ cause, r.toPatch = .error cause) ∨ ∃ a q, st.get? id = some a ∧ r.toPatch = .ok q := by
  cases ha : st.get? id with
  | none => exact .inl (.inl rfl)
  | some a =>
    cases hq : r.toPatch with
    | error cause => exact .inl (.inr ⟨cause, rfl⟩)
    | ok q => exact .inr ⟨a, q, rfl, rfl⟩

private theorem get?_merge_other (room : Nat) (s : Settings α) (st : Store α) (r : FieldRequest α)
    (hne : other ≠ id) :
    (st.merge room s id r).store.get? other = st.get? other := by
  rcases merge_cases st id r with hrefused | ⟨a, q, ha, hq⟩
  · rw [merge_store_of_refused room s hrefused]
  · have hid := get?_id ha
    rw [merge_store room s ha hq]
    exact get?_replace_other st (hid.symm ▸ hne)

private theorem merge_comm (room : Nat) (s : Settings α) (st : Store α) (f g : FieldRequest α) (hne : id ≠ other) :
    ((st.merge room s id f).store.merge room s other g).store =
      ((st.merge room s other g).store.merge room s id f).store := by
  have hafter := get?_merge_other room s st f (Ne.symm hne)
  have hafter' := get?_merge_other room s st g hne
  rcases merge_cases st id f with hrefused | ⟨a, p, ha, hp⟩
  · rw [merge_store_of_refused room s hrefused, merge_store_of_refused room s (hrefused.imp_left hafter'.trans)]
  rcases merge_cases st other g with hrefused | ⟨b, q, hb, hq⟩
  · rw [merge_store_of_refused room s hrefused, merge_store_of_refused room s (hrefused.imp_left hafter.trans)]
  have hids : ((p.normalise s).apply a).id ≠ ((q.normalise s).apply b).id := by
    change a.id ≠ b.id
    rw [get?_id ha, get?_id hb]
    exact hne
  rw [merge_store room s (hafter.trans hb) hq, merge_store room s (hafter'.trans ha) hp, merge_store room s ha hp,
    merge_store room s hb hq, replace_comm st hids]

end Laws

/-- Merging is atomic and the last write of a field wins. A merge fails for the first thing that can be said against
it, and then nothing has changed and nothing is told, or it replaces the named fields of one record, and if this can be
told then it is told in one event. Two merges for one actor leave what one merge of both requests leaves, and merges for
different actors can be made in either order. With a new point of the trail a merge also keeps the newest points, and
tells the point in place of the trail. -/
theorem merges_are_atomic (room : Nat) (s : Settings α) (st : Store α) :
    (∀ id r, match firstRaised (st.objections id r) with
      | some cause => st.merge room s id r = ⟨st, [], .error cause⟩
      | none => ∃ a q, st.get? id = some a ∧ r.toPatch = .ok q ∧
          Merges room st a ((q.normalise s).apply a) ⟨id, .wrote (q.normalise s) none⟩ r.Names r.Names
            (st.merge room s id r)) ∧
    (∀ id f g, firstRaised (st.objections id f) = none →
      firstRaised ((st.merge room s id f).store.objections id g) = none →
      firstRaised (st.objections id (f.override g)) = none ∧
        ((st.merge room s id f).store.merge room s id g).store = (st.merge room s id (f.override g)).store) ∧
    (∀ id other f g, id ≠ other → ((st.merge room s id f).store.merge room s other g).store =
      ((st.merge room s other g).store.merge room s id f).store) ∧
    ∀ id point r, match firstRaised (st.objections id r) with
      | some cause => st.mergeTrail room s id point r = ⟨st, [], .error cause⟩
      | none => ∃ a q trail, st.get? id = some a ∧ r.toPatch = .ok q ∧
          trail = newest (max 1 s.maxTrail).toNat (a.trail ++ [point]) ∧
          (⟨id, .wrote { q.normalise s with trail := none } (some point)⟩ : Event α).changed.get? "trail_point" =
            some point.view ∧
          Merges room st a (({ q.normalise s with trail := some trail } : Patch α).apply a)
            ⟨id, .wrote { q.normalise s with trail := none } (some point)⟩
            (fun name => r.Names name ∨ name = "trail")
            (fun name => (r.Names name ∧ name ≠ "trail") ∨ name = "trail_point")
            (st.mergeTrail room s id point r) :=
  ⟨st.merge_answers room s, fun _ _ _ => merge_merge, fun _ _ f g => merge_comm room s st f g,
    st.mergeTrail_answers room s⟩

def pair : Store Float := (((Stage.new Settings.standard ⟨[], 0⟩).enact [.init, .addActor {}]).1).store

def quarter : FieldRequest Float := { heading := some (.int 450) }

def greeting : FieldRequest Float := { plain := { message := some (.text "hello") }, heading := some (.int (-90)) }

theorem pair_merges_are_atomic :
    firstRaised (pair.objections 1 quarter) = none ∧
      firstRaised ((pair.merge 986 Settings.standard 1 quarter).store.objections 1 greeting) = none ∧ (1 : Int) ≠ 2 ∧
      ((pair.merge 986 Settings.standard 1 quarter).store.merge 986 Settings.standard 1 greeting).store =
        (pair.merge 986 Settings.standard 1 (quarter.override greeting)).store ∧
      ((pair.merge 986 Settings.standard 1 quarter).store.merge 986 Settings.standard 2 greeting).store =
        ((pair.merge 986 Settings.standard 2 greeting).store.merge 986 Settings.standard 1 quarter).store := by
  have hquarter : firstRaised (pair.objections 1 quarter) = none := by decide +kernel
  have hgreeting : firstRaised ((pair.merge 986 Settings.standard 1 quarter).store.objections 1 greeting) = none := by
    decide +kernel
  obtain ⟨-, hmerge, hcomm, -⟩ := merges_are_atomic 986 Settings.standard pair
  exact ⟨hquarter, hgreeting, by decide, (hmerge 1 quarter greeting hquarter hgreeting).2,
    hcomm 1 2 quarter greeting (by decide)⟩

end Store

namespace Stage

variable [Scalar α]

theorem update_merge {s s' : Stage α} {actor : Int} {fs : Fields α} {r : FieldRequest α}
    (h : s.readRequest ["self", "actor_id"] fs = (s', .ok r)) :
    (s.update actor fs).stage = s'.withStore (s'.store.merge s'.world.room s'.settings actor r).store ∧
      (s.update actor fs).out = (s'.store.merge s'.world.room s'.settings actor r).out := by
  rw [update, h]
  exact ⟨rfl, rfl⟩

theorem updateTrail_merge {s s' : Stage α} {actor : Int} {fs : Fields α} {v : Value α} {point : Point α}
    {r : FieldRequest α} (hpoint : Point.ofValue v = .ok point)
    (h : s.readRequest ["self", "actor_id", "point"] fs = (s', .ok r)) :
    (s.updateTrail actor v fs).stage = s'.withStore (s'.store.mergeTrail s'.world.room s'.settings actor point r).store ∧
      (s.updateTrail actor v fs).out = (s'.store.mergeTrail s'.world.room s'.settings actor point r).out := by
  simp only [updateTrail, hpoint, h]
  exact ⟨rfl, rfl⟩

/-- An update fails although nothing can be said against it, and the record has changed after all. -/
theorem untellable_update_kept :
    ∃ (s : Stage Float) (fs : Fields Float) (r : FieldRequest Float), Reachable s ∧
      (s.readRequest ["self", "actor_id"] fs).2 = .ok r ∧ firstRaised (s.store.objections 1 r) = none ∧
      (s.update 1 fs).cause? = some .tooDeep ∧ (s.update 1 fs).out.length = 0 ∧
      (s.update 1 fs).stage.store.programs.map Program.ids ≠ s.store.programs.map Program.ids := by
  refine ⟨((new Settings.standard ⟨[], 0⟩).enact [.init]).1,
    [("program", .list [.object [("type_id", .text "say"), ("inputs", .object [("message", crate 254)])]])], _,
    (Reachable.empty (new_isEmpty _ _)).enact _, rfl, ?_, ?_, ?_, ?_⟩
  · decide +kernel
  · decide +kernel
  · decide +kernel
  · decide +kernel

end Stage

end SpriteStage
