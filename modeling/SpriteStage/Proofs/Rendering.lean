import SpriteStage.Proofs.Updates
/-!
# Rendering from events

A renderer knows nothing but the events. Each event is a document that names what has changed, and
the renderer keeps a document for each actor: it takes the document of an added actor, drops that
of a deleted one, appends a new point to the trail and overwrites every other field.
-/
namespace SpriteStage

variable {α : Type}

/-! ## Documents -/

def Point.view (p : Point α) : Value α := .object [("x", .real p.x), ("y", .real p.y)]

/-- The fields of the document of an actor, in order. -/
def fieldNames : List String :=
  ["id", "display_name", "position", "heading", "size", "visual_tag", "program", "is_running",
    "current_step_index", "message", "trail"]

namespace Fields

/-- The document with those fields of an actor that a table has. -/
def ofTable (table : String → Option (Value α)) : Fields α :=
  fieldNames.filterMap fun name => (table name).map (name, ·)

private theorem names_ofTable (table : String → Option (Value α)) :
    (ofTable table).names.Sublist fieldNames := by
  unfold ofTable
  induction fieldNames with
  | nil => exact .slnil
  | cons name rest ih =>
    rw [List.filterMap_cons]
    cases table name with
    | none => exact ih.cons name
    | some v => exact ih.cons_cons name

theorem get?_cons (name : String) (v : Value α) (rest : Fields α) (x : String) :
    get? ((name, v) :: rest) x = if x = name then some v else get? rest x := by
  rw [get?, List.lookup_cons]
  by_cases h : x = name
  · simp [h]
  · have hne : (x == name) = false := by simpa using h
    rw [hne, if_neg h]
    rfl

theorem get?_eq_none {fs : Fields α} {x : String} (h : x ∉ fs.names) : fs.get? x = none := by
  induction fs with
  | nil => rfl
  | cons entry rest ih =>
    obtain ⟨name, v⟩ := entry
    obtain ⟨hne, hrest⟩ := not_or.mp (mt List.mem_cons.mpr h)
    rw [get?_cons, if_neg hne, ih hrest]

private theorem get?_ofTable {table : String → Option (Value α)} (h : ∀ x, x ∉ fieldNames → table x = none)
    (x : String) : (ofTable table).get? x = table x := by
  have hnames : ∀ names : List String,
      get? (names.filterMap fun name => (table name).map (name, ·)) x = if x ∈ names then table x else none := by
    intro names
    induction names with
    | nil => rfl
    | cons name rest ih =>
      rw [List.filterMap_cons]
      by_cases hx : x = name
      · subst hx
        cases htable : table x with
        | none => simp [ih, htable]
        | some v => simp [get?_cons]
      · cases table name with
        | none => simp [ih, hx]
        | some v => simp [get?_cons, ih, hx]
  rw [ofTable, hnames]
  split
  · rfl
  · rename_i hx
    exact (h x hx).symm

theorem get?_put (fs : Fields α) (name : String) (v : Value α) (x : String) :
    (fs.put name v).get? x = if x = name then some v else fs.get? x := by
  induction fs with
  | nil => exact get?_cons name v [] x
  | cons entry rest ih =>
    obtain ⟨n, w⟩ := entry
    unfold put
    split
    · rename_i h
      subst h
      rw [get?_cons, get?_cons]
      split <;> rfl
    · rename_i h
      rw [get?_cons, get?_cons, ih]
      by_cases hn : x = n
      · rw [if_pos hn, if_pos hn, if_neg fun heq => h (hn.symm.trans heq)]
      · rw [if_neg hn, if_neg hn]

def putAll (fs : Fields α) (entries : Fields α) : Fields α :=
  entries.foldl (fun fs entry => fs.put entry.1 entry.2) fs

private theorem get?_putAll {entries : Fields α} (h : entries.names.Nodup) (fs : Fields α) (x : String) :
    (fs.putAll entries).get? x = (entries.get? x).or (fs.get? x) := by
  induction entries generalizing fs with
  | nil => rfl
  | cons entry rest ih =>
    obtain ⟨name, v⟩ := entry
    obtain ⟨hfresh, hrest⟩ := List.nodup_cons.mp h
    change ((fs.put name v).putAll rest).get? x = _
    rw [ih hrest, get?_put, get?_cons]
    by_cases hx : x = name
    · subst hx
      rw [get?_eq_none hfresh, if_pos rfl, if_pos rfl]
      rfl
    · rw [if_neg hx, if_neg hx]

end Fields

section Views

variable [Scalar α]

mutual

def Block.view : Block α → Value α
  | ⟨id, typeId, inputs, children⟩ =>
    .object [("id", .text id), ("type_id", .text typeId), ("inputs", .object (Value.finiteFields inputs)),
      ("children", .list (Program.view children))]

def Program.view : List (Block α) → List (Value α)
  | [] => []
  | b :: rest => b.view :: Program.view rest

end

/-- What the document of an actor has under a name. -/
def Actor.field? (a : Actor α) : String → Option (Value α)
  | "id" => some (.int a.id)
  | "display_name" => some a.name.finite
  | "position" => some a.position.view
  | "heading" => some (.real a.heading)
  | "size" => some a.size
  | "visual_tag" => some a.look.finite
  | "program" => some (.list (Program.view a.program))
  | "is_running" => some a.isRunning.finite
  | "current_step_index" => some a.stepIndex.finite
  | "message" => some a.message.finite
  | "trail" => some (.list (a.trail.map Point.view))
  | _ => none

def Actor.view (a : Actor α) : Fields α := .ofTable a.field?

/-- What the document of a write has under a name. -/
def Patch.field? (p : Patch α) : String → Option (Value α)
  | "display_name" => p.name
  | "position" => p.position.map Point.view
  | "heading" => p.heading.map .real
  | "size" => p.size
  | "visual_tag" => p.look
  | "program" => p.program.map fun program => .list (Program.view program)
  | "is_running" => p.isRunning
  | "current_step_index" => p.stepIndex
  | "message" => p.message
  | "trail" => p.trail.map fun points => .list (points.map Point.view)
  | _ => none

def Patch.view (p : Patch α) : Fields α := .ofTable p.field?

def Event.changed (e : Event α) : Fields α :=
  match e.change with
  | .added a => [("added", .object a.view)]
  | .deleted => [("deleted", .bool true)]
  | .wrote p trailPoint => p.view ++ (trailPoint.map fun point => ("trail_point", point.view)).toList

private theorem Actor.field?_eq_none (a : Actor α) {name : String} (h : name ∉ fieldNames) :
    a.field? name = none := by
  unfold field?
  split <;> simp [fieldNames] at h ⊢

private theorem Patch.field?_eq_none (p : Patch α) {name : String} (h : name ∉ fieldNames) :
    p.field? name = none := by
  unfold field?
  split <;> simp [fieldNames] at h ⊢

theorem Actor.get?_view (a : Actor α) (name : String) : a.view.get? name = a.field? name :=
  Fields.get?_ofTable (fun _ => a.field?_eq_none) name

theorem Patch.get?_view (p : Patch α) (name : String) : p.view.get? name = p.field? name :=
  Fields.get?_ofTable (fun _ => p.field?_eq_none) name

private theorem Patch.names_view (p : Patch α) : p.view.names.Nodup := by
  have hnodup : fieldNames.Nodup := by decide
  exact (Fields.names_ofTable p.field?).nodup hnodup

private theorem Actor.field?_apply {p : Patch α} (hp : p.Finite) (a : Actor α) (name : String) :
    (p.apply a).field? name = (p.field? name).or (a.field? name) := by
  have hfinite : ∀ {o : Option (Value α)} (v : Value α), o ∈ [p.name, p.look, p.isRunning, p.stepIndex, p.message] →
      some (o.getD v).finite = o.or (some v.finite) := by
    intro o v ho
    cases o with
    | none => rfl
    | some w => exact congrArg some (hp w ho)
  by_cases hname : name ∈ fieldNames
  · simp only [fieldNames, List.mem_cons, List.not_mem_nil, or_false] at hname
    rcases hname with rfl | rfl | rfl | rfl | rfl | rfl | rfl | rfl | rfl | rfl | rfl
    · rfl
    · exact hfinite a.name (by simp)
    · cases hposition : p.position <;> simp [Actor.field?, Patch.field?, Patch.apply, hposition]
    · cases hheading : p.heading <;> simp [Actor.field?, Patch.field?, Patch.apply, hheading]
    · cases hsize : p.size <;> simp [Actor.field?, Patch.field?, Patch.apply, hsize]
    · exact hfinite a.look (by simp)
    · cases hprogram : p.program <;> simp [Actor.field?, Patch.field?, Patch.apply, hprogram]
    · exact hfinite a.isRunning (by simp)
    · exact hfinite a.stepIndex (by simp)
    · exact hfinite a.message (by simp)
    · cases htrail : p.trail <;> simp [Actor.field?, Patch.field?, Patch.apply, htrail]
  · rw [Actor.field?_eq_none _ hname, Actor.field?_eq_none _ hname, Patch.field?_eq_none _ hname]
    rfl

theorem Actor.document_eq {a b : Actor α} {x : α} (hsize : a.size = .real x) (h : a.document = .ok b) :
    b = a := by
  unfold document at h
  split at h
  · cases h
  · have hscalar : a.size.toScalar = .ok x := by rw [hsize]; rfl
    rw [hscalar] at h
    cases h
    rw [← hsize]

/-! ## The renderer -/

namespace Fields

omit [Scalar α] in
def push (fs : Fields α) (name : String) (v : Value α) : Fields α :=
  match fs.get? name with
  | some (.list items) => fs.put name (.list (items ++ [v]))
  | _ => fs.put name (.list [v])

end Fields

omit [Scalar α] in
/-- What becomes of the document of an actor by something that an event says. -/
def draw (figure : Option (Fields α)) : String × Value α → Option (Fields α)
  | ("added", v) => v.fields?
  | ("deleted", _) => none
  | ("trail_point", v) => figure.map (·.push "trail" v)
  | (name, v) => figure.map (·.put name v)

/-- The documents that a renderer has of actors. -/
abbrev Scene (α : Type) := Int → Option (Fields α)

namespace Scene

omit [Scalar α] in
def empty : Scene α := fun _ => none

def take (scene : Scene α) (e : Event α) : Scene α :=
  fun id => if id = e.actor then e.changed.foldl draw (scene id) else scene id

def follow (scene : Scene α) (events : List (Event α)) : Scene α := events.foldl take scene

end Scene

omit [Scalar α] in
theorem draw_put {name : String} (h : name ∈ fieldNames) (fs : Fields α) (v : Value α) :
    draw (some fs) (name, v) = some (fs.put name v) := by
  simp only [fieldNames, List.mem_cons, List.not_mem_nil, or_false] at h
  rcases h with rfl | rfl | rfl | rfl | rfl | rfl | rfl | rfl | rfl | rfl | rfl <;> rfl

omit [Scalar α] in
theorem foldl_draw {entries : Fields α} (h : ∀ name ∈ entries.names, name ∈ fieldNames) (fs : Fields α) :
    entries.foldl draw (some fs) = some (fs.putAll entries) := by
  induction entries generalizing fs with
  | nil => rfl
  | cons entry rest ih =>
    obtain ⟨hname, hrest⟩ := List.forall_mem_cons.mp h
    rw [List.foldl_cons, draw_put hname, ih hrest]
    rfl

private theorem foldl_draw_view (p : Patch α) (fs : Fields α) :
    p.view.foldl draw (some fs) = some (fs.putAll p.view) :=
  foldl_draw (fun _ hname => (Fields.names_ofTable p.field?).subset hname) fs

/-! ## Depictions -/

omit [Scalar α] in
/-- The newest points stay the newest when points that are older than all of them are left out. -/
theorem Store.newest_newest_append {β : Type} (n : Nat) (l : List β) (x : β) :
    newest n (newest (n + 1) l) ++ [x] = newest (n + 1) (l ++ [x]) := by
  have hcount : l.length - (n + 1) + (l.length - (l.length - (n + 1)) - n) = l.length - n := by omega
  have hsame : l.length + 1 - (n + 1) = l.length - n := by omega
  simp only [newest, List.length_drop, List.drop_drop, List.length_append, List.length_singleton, hcount, hsame]
  rw [List.drop_append_of_le_length (Nat.sub_le _ _)]

/-- A document shows all fields of a record, and for its trail the points that were collected, of which the
record has the newest, so many at most. -/
structure Fields.Depicts (limit : Nat) (a : Actor α) (fs : Fields α) : Prop where
  fields : ∀ name, name ≠ "trail" → fs.get? name = a.field? name
  trail : ∃ points : List (Point α), fs.get? "trail" = some (.list (points.map Point.view)) ∧
    a.trail = Store.newest limit points

namespace Fields.Depicts

variable {limit : Nat} {a : Actor α} {fs : Fields α}

private theorem ofView (limit : Nat) {a : Actor α} (h : a.trail = []) : Depicts limit a a.view where
  fields name _ := a.get?_view name
  trail := by
    refine ⟨[], ?_, ?_⟩
    · rw [Actor.get?_view]
      simp [Actor.field?, h]
    · simp [h, Store.newest]

private theorem putAll (h : Depicts limit a fs) {p : Patch α} (hp : p.Finite) (htrail : p.trail = none) :
    Depicts limit (p.apply a) (fs.putAll p.view) where
  fields name hname := by
    rw [Fields.get?_putAll p.names_view, Patch.get?_view, Actor.field?_apply hp, h.fields name hname]
  trail := by
    obtain ⟨points, hpoints, hnewest⟩ := h.trail
    refine ⟨points, ?_, ?_⟩
    · rw [Fields.get?_putAll p.names_view, Patch.get?_view, hpoints]
      simp [Patch.field?, htrail]
    · simp [Patch.apply, htrail, hnewest]

private theorem push (h : Depicts (limit + 1) a fs) (point : Point α) :
    Depicts (limit + 1) { a with trail := Store.newest limit a.trail ++ [point] }
      (fs.push "trail" point.view) := by
  obtain ⟨points, hpoints, hnewest⟩ := h.trail
  have hpush : fs.push "trail" point.view = fs.put "trail" (.list ((points ++ [point]).map Point.view)) := by
    rw [Fields.push, hpoints, List.map_append]
    rfl
  rw [hpush]
  refine ⟨?_, points ++ [point], ?_, ?_⟩
  · intro name hname
    rw [Fields.get?_put, if_neg hname, h.fields name hname]
    unfold Actor.field?
    split <;> first | rfl | exact absurd rfl hname
  · rw [Fields.get?_put, if_pos rfl]
  · rw [hnewest]
    exact Store.newest_newest_append limit points point

end Fields.Depicts

namespace Scene

/-- There are documents of the actors in a store and of no others, and they show the records. -/
def Shows (limit : Nat) (scene : Scene α) (st : Store α) : Prop :=
  ∀ id, Option.Rel (fun a fs => Fields.Depicts limit a fs) (st.get? id) (scene id)

private theorem take_other (scene : Scene α) {e : Event α} {id : Int} (h : id ≠ e.actor) :
    scene.take e id = scene id := if_neg h

private theorem take_own (scene : Scene α) (e : Event α) :
    scene.take e e.actor = e.changed.foldl draw (scene e.actor) := if_pos rfl

theorem follow_append (scene : Scene α) (events more : List (Event α)) :
    scene.follow (events ++ more) = (scene.follow events).follow more := List.foldl_append

theorem empty_shows (limit : Nat) : (empty : Scene α).Shows limit Store.empty := fun _ => .none

namespace Shows

variable {limit : Nat} {scene : Scene α} {st st' : Store α}

theorem congr (h : scene.Shows limit st) (hsame : ∀ id, st'.get? id = st.get? id) : scene.Shows limit st' := by
  intro id
  rw [hsame]
  exact h id

private theorem update (h : scene.Shows limit st) {e : Event α} {a b : Actor α} (ha : st.get? e.actor = some a)
    (hid : b.id = a.id)
    (hdraw : ∀ fs, Fields.Depicts limit a fs →
      ∃ fs', e.changed.foldl draw (some fs) = some fs' ∧ Fields.Depicts limit b fs') :
    (scene.take e).Shows limit (st.replace b) := by
  have hown : a.id = e.actor := Store.get?_id ha
  intro id
  rw [Store.get?_replace, hid, hown]
  by_cases hother : id = e.actor
  · have hthis := h e.actor
    rw [ha] at hthis
    rw [if_pos hother, hother, ha, take_own]
    cases hscene : scene e.actor with
    | none =>
      rw [hscene] at hthis
      cases hthis
    | some fs =>
      rw [hscene] at hthis
      cases hthis with
      | some hdepicts =>
        obtain ⟨fs', hfs', hdepicts'⟩ := hdraw fs hdepicts
        rw [hfs']
        exact .some hdepicts'
  · rw [if_neg hother, take_other scene hother]
    exact h id

theorem write (h : scene.Shows limit st) {id : Int} {a : Actor α} (ha : st.get? id = some a) {p : Patch α}
    (hp : p.Finite) (htrail : p.trail = none) :
    (scene.take ⟨id, .wrote p none⟩).Shows limit (st.replace (p.apply a)) := by
  refine h.update ha rfl ?_
  intro fs hfs
  refine ⟨fs.putAll p.view, ?_, hfs.putAll hp htrail⟩
  simpa [Event.changed] using foldl_draw_view p fs

theorem give (h : scene.Shows limit st) {id : Int} {a : Actor α} (ha : st.get? id = some a) (p : Program α) :
    (scene.take ⟨id, .wrote { program := some p } none⟩).Shows limit (st.replace { a with program := p }) :=
  h.write (p := { program := some p }) ha (by simp [Patch.Finite]) rfl

theorem move (h : scene.Shows (limit + 1) st) {id : Int} {a : Actor α} (ha : st.get? id = some a)
    (position point : Point α) :
    (scene.take ⟨id, .wrote { position := some position } (some point)⟩).Shows (limit + 1)
      (st.replace { a with position, trail := Store.newest limit a.trail ++ [point] }) := by
  refine h.update ha rfl ?_
  intro fs hfs
  have hposition := hfs.putAll (p := { position := some position }) (by simp [Patch.Finite]) rfl
  refine ⟨_, ?_, hposition.push point⟩
  rw [Event.changed, List.foldl_append, foldl_draw_view]
  rfl

theorem add (h : scene.Shows limit st) (hasc : st.Ascending) {a : Actor α} (hid : a.id = st.nextId)
    (htrail : a.trail = []) (next : Int) :
    (scene.take ⟨a.id, .added a⟩).Shows limit ⟨st.actors ++ [a], next⟩ := by
  intro id
  rw [Store.get?_add hasc hid]
  by_cases hnew : id = st.nextId
  · rw [if_pos hnew, hnew, ← hid]
    rw [take_own scene ⟨a.id, .added a⟩]
    exact .some (.ofView limit htrail)
  · rw [if_neg hnew, take_other scene (by rw [hid]; exact hnew)]
    exact h id

theorem delete (h : scene.Shows limit st) (actor : Int) :
    (scene.take ⟨actor, .deleted⟩).Shows limit (st.erase actor) := by
  intro id
  rw [Store.get?_erase]
  by_cases hgone : id = actor
  · rw [if_pos hgone, hgone]
    rw [take_own scene ⟨actor, .deleted⟩]
    exact .none
  · rw [if_neg hgone, take_other scene hgone]
    exact h id

end Shows

end Scene

end Views

end SpriteStage
