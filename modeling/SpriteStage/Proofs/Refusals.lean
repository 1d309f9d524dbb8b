import SpriteStage.Proofs.Identity
/-!
# Refusals

What can be said against an edit is listed in the order in which it counts. An edit fails for the
first objection that is raised, and then nothing has changed but that a name for a block may be
used up; without an objection it goes through.
-/
namespace SpriteStage

variable {α : Type}

def raisedIf (condition : Prop) [Decidable condition] (cause : Error) : Option Error :=
  if condition then some cause else none

def firstRaised (objections : List (Option Error)) : Option Error := objections.findSome? id

/-- A computation that fails for the first of some objections that is raised, and otherwise gives a result for
which `good` holds. -/
def Answers {β : Type} (objections : List (Option Error)) (good : β → Prop) (x : Except Error β) : Prop :=
  match firstRaised objections with
  | some cause => x = .error cause
  | none => ∃ r, x = .ok r ∧ good r

namespace Answers

variable {β γ : Type} {objections l : List (Option Error)} {good : β → Prop} {fine : γ → Prop}

private theorem ok {r : β} (h : good r) : Answers [] good (.ok r) := ⟨r, rfl, h⟩

private theorem ofIf {condition : Prop} [Decidable condition] {cause : Error} {x : Except Error β}
    (hraised : condition → x = .error cause) (hnot : ¬ condition → ∃ r, x = .ok r ∧ good r) :
    Answers [raisedIf condition cause] good x := by
  unfold raisedIf
  split
  · rename_i h
    exact hraised h
  · rename_i h
    exact hnot h

/-- Objections to the first step come before those to the second. -/
theorem bind {x : Except Error β} {f : β → Except Error γ} (h : Answers objections good x)
    (hf : ∀ r, good r → Answers l fine (f r)) : Answers (objections ++ l) fine (x >>= f) := by
  unfold Answers firstRaised at *
  rw [List.findSome?_append]
  cases hfirst : objections.findSome? id with
  | some cause =>
    rw [hfirst] at h
    rw [h]
    rfl
  | none =>
    rw [hfirst] at h
    obtain ⟨r, rfl, hr⟩ := h
    exact hf r hr

private theorem imp {x : Except Error β} {good' : β → Prop} (h : Answers objections good x)
    (hgood : ∀ r, good r → good' r) : Answers objections good' x := by
  unfold Answers at *
  split at h
  · exact h
  · obtain ⟨r, hx, hr⟩ := h
    exact ⟨r, hx, hgood r hr⟩

theorem map {x : Except Error β} (h : Answers objections good x) {f : β → γ}
    (hf : ∀ r, good r → fine (f r)) : Answers objections fine (x.map f) := by
  unfold Answers at *
  split at h
  · rw [h]
    rfl
  · obtain ⟨r, rfl, hr⟩ := h
    exact ⟨f r, rfl, hf r hr⟩

end Answers

/-! ## Objections to an edit of a program -/

def Catalog.unknown (c : Catalog α) (typeId : String) : Option Error :=
  raisedIf (typeId ∉ c.types.map (·.id)) (.unknownBlockType typeId)

def Catalog.undeclared (c : Catalog α) (typeId : String) (names : List String) : Option Error :=
  (c.find? typeId).bind fun t =>
    (names.find? fun name => (t.input? name).isNone).map (.undeclaredInput typeId)

namespace Program

def absent (p : Program α) (id : String) : Option Error :=
  raisedIf (id ∉ ids p) (.blockNotFound id)

def closed (c : Catalog α) (p : Program α) (id : String) : Option Error :=
  (p.find? id).bind fun b =>
    raisedIf ((c.find? b.typeId).all (!·.isContainer)) (.notContainer id b.typeId)

/-- Against the place for a new block: at the end, or inside of a parent. -/
def noPlace (c : Catalog α) (p : Program α) : Option String → List (Option Error)
  | none => []
  | some parent => [p.absent parent, p.closed c parent]

def undeclared (c : Catalog α) (p : Program α) (id name : String) : Option Error :=
  (p.find? id).bind fun b => c.undeclared b.typeId [name]

def outside (p : Program α) (source target : Int) : Option Error :=
  raisedIf (¬ ((0 ≤ source ∧ source < p.length) ∧ 0 ≤ target ∧ target < p.length))
    (.indexOutOfRange p.length)

end Program

private theorem Catalog.find?_id {c : Catalog α} {typeId : String} {t : BlockType α}
    (h : c.find? typeId = some t) : t.id = typeId := by
  simpa using List.find?_some h

private theorem Catalog.isSome_find? {c : Catalog α} {typeId : String} :
    (c.find? typeId).isSome ↔ typeId ∈ c.types.map (·.id) := by
  simp [Catalog.find?]

private theorem Catalog.lookup_answers (c : Catalog α) (typeId : String) :
    Answers [c.unknown typeId] (fun t => c.find? typeId = some t) (c.lookup typeId) := by
  apply Answers.ofIf
  · intro hnew
    have hnone : c.find? typeId = none := by
      rw [← Option.not_isSome_iff_eq_none, Catalog.isSome_find?]
      exact hnew
    rw [Catalog.lookup, hnone]
  · intro hknown
    obtain ⟨t, ht⟩ := Option.isSome_iff_exists.mp (Catalog.isSome_find?.mpr (not_not.mp hknown))
    exact ⟨t, by rw [Catalog.lookup, ht], ht⟩

private theorem BlockType.fill_answers {c : Catalog α} {typeId : String} {t : BlockType α}
    (ht : c.find? typeId = some t) (raw done : Fields α) :
    Answers [c.undeclared typeId raw.names] (fun _ => True) (t.fill raw done) := by
  have hundeclared : ∀ names : List String, c.undeclared typeId names =
      (names.find? fun name => (t.input? name).isNone).map (.undeclaredInput typeId) := by
    intro names
    rw [Catalog.undeclared, ht]
    rfl
  induction raw generalizing done with
  | nil =>
    rw [hundeclared]
    exact ⟨done, rfl, trivial⟩
  | cons entry raw ih =>
    obtain ⟨name, value⟩ := entry
    rw [BlockType.fill, hundeclared, Fields.names, List.map_cons, List.find?_cons]
    cases hspec : t.input? name with
    | none =>
      rw [Catalog.find?_id ht]
      rfl
    | some spec =>
      have hrest := ih (done.put name value)
      rw [hundeclared, Fields.names] at hrest
      exact hrest

private theorem Catalog.newBlock_answers (c : Catalog α) (id typeId : String) (inputs : Fields α) :
    Answers [c.unknown typeId, c.undeclared typeId inputs.names] (fun _ => True)
      (c.newBlock id typeId inputs) := by
  refine (c.lookup_answers typeId).bind (l := [_]) fun t ht => ?_
  exact (BlockType.fill_answers ht inputs t.defaults).map fun _ _ => trivial

namespace Program

theorem isSome_find? {p : Program α} {id : String} : (p.find? id).isSome ↔ id ∈ ids p := by
  simp [find?, ids]

private theorem locate_answers (p : Program α) (id : String) :
    Answers [p.absent id] (fun b => p.find? id = some b) (p.locate id) := by
  apply Answers.ofIf
  · intro hnew
    have hnone : p.find? id = none := by
      rw [← Option.not_isSome_iff_eq_none, isSome_find?]
      exact hnew
    rw [locate, hnone]
  · intro hthere
    obtain ⟨b, hb⟩ := Option.isSome_iff_exists.mp (isSome_find?.mpr (not_not.mp hthere))
    exact ⟨b, by rw [locate, hb], hb⟩

theorem edit_isOk {p : Program α} {id : String} {b : Block α} (hb : p.find? id = some b)
    (f : Block α → List (Block α)) : ∃ q, p.edit id f = .ok q := by
  rcases (splice_cases id f).2 p with ⟨-, hnone⟩ | ⟨x, q, hsome, -, -⟩
  · rw [hb] at hnone
    cases hnone
  · exact ⟨q, by rw [edit, hsome]⟩

private theorem remove_answers (p : Program α) (id : String) :
    Answers [p.absent id] (fun _ => True) (p.remove id) := by
  refine (p.locate_answers id).bind (l := []) fun b hb => ?_
  obtain ⟨q, hq⟩ := edit_isOk hb fun _ => []
  exact ⟨(q, b), by rw [hq]; rfl, trivial⟩

private theorem duplicate_answers (p : Program α) (id : String) (n : Nat) :
    Answers [p.absent id] (fun _ => True) (p.duplicate id n) := by
  refine (p.locate_answers id).bind (l := []) fun b hb => ?_
  obtain ⟨q, hq⟩ := edit_isOk hb fun x => [x, (b.renamed n).1]
  exact ⟨(q, (b.renamed n).1, (b.renamed n).2), by dsimp only; rw [hq]; rfl, trivial⟩

private theorem reorder_answers (p : Program α) (source target : Int) :
    Answers [p.outside source target] (fun _ => True) (p.reorder source target) := by
  apply Answers.ofIf
  · intro hout
    rw [and_assoc] at hout
    simp only [reorder, if_neg hout]
  · intro hin
    have hbounds := not_not.mp hin
    rw [and_assoc] at hbounds
    have hlt : source.toNat < p.length := by omega
    simp only [reorder, if_pos hbounds, List.getElem?_eq_getElem hlt]
    exact ⟨_, rfl, trivial⟩

private theorem Fits.type {c : Catalog α} {p : Program α} (h : Fits c p) {id : String} {b : Block α}
    (hb : p.find? id = some b) : ∃ t, c.find? b.typeId = some t ∧ c.lookup b.typeId = .ok t := by
  obtain ⟨t, ht, -⟩ := h b (List.mem_of_find?_eq_some hb)
  exact ⟨t, ht, by rw [Catalog.lookup, ht]⟩

private theorem append_answers {c : Catalog α} {p : Program α} (h : Fits c p) (b : Block α)
    (parent : Option String) :
    Answers (p.noPlace c parent) (fun _ => True) (p.append c b parent) := by
  cases parent with
  | none => exact ⟨_, rfl, trivial⟩
  | some parent =>
    refine (p.locate_answers parent).bind (l := [_]) fun holder hholder => ?_
    obtain ⟨t, ht, hlookup⟩ := h.type hholder
    rw [hlookup, closed, hholder]
    apply Answers.ofIf
    · intro hclosed
      have hnot : ¬ t.isContainer = true := by simpa [ht] using hclosed
      exact if_neg hnot
    · intro hopen
      have hcontainer : t.isContainer = true := by simpa [ht] using hopen
      obtain ⟨q, hq⟩ := edit_isOk hholder fun h => [{ h with children := h.children ++ [b] }]
      exact ⟨q, (if_pos hcontainer).trans hq, trivial⟩

private theorem setInput_answers {c : Catalog α} {p : Program α} (h : Fits c p) (id name : String)
    (value : Value α) :
    Answers [p.absent id, p.undeclared c id name] (fun _ => True) (p.setInput c id name value) := by
  refine (p.locate_answers id).bind (l := [_]) fun b hb => ?_
  obtain ⟨t, ht, hlookup⟩ := h.type hb
  rw [hlookup, undeclared, hb, Option.bind_some, Catalog.undeclared, ht]
  simp only [Option.bind_some, List.find?_cons, List.find?_nil, bind, Except.bind]
  cases hspec : t.input? name with
  | none => rfl
  | some spec =>
    obtain ⟨q, hq⟩ := edit_isOk hb fun b => [{ b with inputs := b.inputs.put name value }]
    exact ⟨_, by simp only [hq]; rfl, trivial⟩

end Program

theorem Store.get_answers (st : Store α) (id : Int) :
    Answers [raisedIf (id ∉ st.ids) (.actorNotFound id)] (fun a => st.get? id = some a) (st.get id) := by
  apply Answers.ofIf
  · intro hgone
    rw [get, get?_eq_none.mpr hgone]
  · intro hthere
    obtain ⟨a, ha⟩ := Option.isSome_iff_exists.mp (isSome_get?.mpr (not_not.mp hthere))
    exact ⟨a, get_of_get? ha, ha⟩

variable [Scalar α]

namespace Stage

/-! ## Objections to an edit of a stage -/

def missing (s : Stage α) (actor : Int) : Option Error :=
  raisedIf (actor ∉ s.store.ids) (.actorNotFound actor)

def busy (s : Stage α) (actor : Int) : Option Error :=
  raisedIf (s.runs? actor = true) (.actorBusy actor)

/-- Against a program that goes further down than there is room for copying it. -/
def uncopied (s : Stage α) (actor : Int) : Option Error :=
  (s.store.program? actor).bind fun p =>
    raisedIf (s.world.room - editSteps < Program.copyDepth p) (.noRoom .copying)

/-- Against an edit of the program of an actor, with what can be said about the program itself last. -/
def toEditing (s : Stage α) (actor : Int) (about : Program α → List (Option Error)) :
    List (Option Error) :=
  [s.missing actor, s.busy actor, s.uncopied actor] ++ ((s.store.program? actor).map about).getD []

/-- All that can be said against an operation of an editor on an actor, in the order in which it counts. -/
def objections (s : Stage α) : Act α → List (Option Error)
  | .submit actor typeId inputs parent =>
    [s.world.catalog.unknown typeId, s.world.catalog.undeclared typeId inputs.names] ++
      s.toEditing actor (·.noPlace s.world.catalog parent)
  | .editInput actor block name _ =>
    s.toEditing actor fun p => [p.absent block, p.undeclared s.world.catalog block name]
  | .removeBlock actor block | .duplicate actor block => s.toEditing actor fun p => [p.absent block]
  | .reorder actor source target => s.toEditing actor fun p => [p.outside source target]
  | .clearProgram actor => s.toEditing actor fun _ => []
  | .deleteActor actor => [s.missing actor, s.busy actor]
  | .selectActor actor => [s.missing actor]
  | _ => []

def Act.edited? : Act α → Option Int
  | .submit actor _ _ _ | .editInput actor _ _ _ | .removeBlock actor _ | .duplicate actor _
    | .reorder actor _ _ | .clearProgram actor => some actor
  | _ => none

/-- Whether an act is an operation of an editor on an actor. -/
def Act.onActor : Act α → Bool
  | .deleteActor _ | .selectActor _ => true
  | a => a.edited?.isSome

def failure? (s : Stage α) : Act α → Option Error
  | .submit actor typeId inputs parent => (s.submit actor typeId inputs parent).cause?
  | .editInput actor block name value => (s.editInput actor block name value).cause?
  | .removeBlock actor block => (s.removeBlock actor block).cause?
  | .duplicate actor block => (s.duplicate actor block).cause?
  | .reorder actor source target => (s.reorder actor source target).cause?
  | .clearProgram actor => (s.clearProgram actor).cause?
  | .deleteActor actor => (s.deleteActor actor).cause?
  | .selectActor actor => (s.selectActor actor).cause?
  | _ => none

/-- An operation that fails for a cause has told nothing and changed nothing, except that names for blocks may
be used up. -/
structure Refuses (s : Stage α) (cause : Error) (answer : Option Error) (done : Stage α × List (Signal α)) :
    Prop where
  answer : answer = some cause
  silent : done.2 = []
  unchanged : ∃ n, done.1 = { s with nextBlock := n }

/-- An operation that has written a program for an actor, and nothing else, and has told it in one event. A
program that cannot be told is written as well, but nothing is told and the operation fails. -/
structure Rewrites (s : Stage α) (actor : Int) (p : Program α) (answer : Option Error)
    (done : Stage α × List (Signal α)) : Prop where
  stage : ∃ a n, s.store.get? actor = some a ∧
    done.1 = { s.withStore (s.store.replace { a with program := p }) with nextBlock := n }
  told : p.Tellable → answer = none ∧ done.2 = [.event ⟨actor, .wrote { program := some p } none⟩]
  untold : ¬ p.Tellable → (∃ flaw : DocumentFlaw, answer = some flaw.error) ∧ done.2 = []

/-- An edit of a program to which some objections can be raised. -/
def Answered (s : Stage α) (actor : Int) (objections : List (Option Error)) (answer : Option Error)
    (done : Stage α × List (Signal α)) : Prop :=
  match firstRaised objections with
  | some cause => Refuses s cause answer done
  | none => ∃ p, Rewrites s actor p answer done

omit [Scalar α] in
theorem get_answers (s : Stage α) (actor : Int) :
    Answers [s.missing actor] (fun a => s.store.get? actor = some a) (s.store.get actor) :=
  s.store.get_answers actor

private theorem editable_answers (s : Stage α) (actor : Int) :
    Answers [s.missing actor, s.busy actor] (fun a => s.store.get? actor = some a) (s.editable actor) := by
  refine (s.get_answers actor).bind (l := [_]) fun a ha => ?_
  have hruns : s.runs? actor = a.runs := by rw [runs?, ha, Option.any_some]
  rw [busy, hruns]
  exact .ofIf (fun h => if_pos h) fun h => ⟨a, if_neg h, ha⟩

private theorem programOf_answers (s : Stage α) (actor : Int) :
    Answers [s.missing actor, s.busy actor, s.uncopied actor] (fun p => s.store.program? actor = some p)
      (s.programOf actor) := by
  refine (s.editable_answers actor).bind (l := [_]) fun a ha => ?_
  have hprogram : s.store.program? actor = some a.program := by rw [Store.program?, ha, Option.map_some]
  rw [uncopied, hprogram]
  exact .ofIf (fun h => if_pos h) fun h => ⟨a.program, if_neg h, rfl⟩

private theorem edit_answers {β : Type} {s : Stage α} {actor : Int} {f : Program α → Except Error β}
    {about : Program α → List (Option Error)}
    (hf : ∀ p, s.store.program? actor = some p → Answers (about p) (fun _ => True) (f p)) :
    Answers (s.toEditing actor about) (fun _ => s.store.get? actor ≠ none) ((s.programOf actor).bind f) := by
  refine (s.programOf_answers actor).bind fun p hp => ?_
  have hthere : s.store.get? actor ≠ none := by
    intro hnone
    rw [Store.program?, hnone] at hp
    cases hp
  rw [hp, Option.map_some, Option.getD_some]
  exact (hf p hp).imp fun _ _ => hthere

private theorem commit_rewrites {β : Type} {s : Stage α} {actor : Int} (ha : s.store.get? actor ≠ none) (n : Nat)
    (p : Program α) (result : β) :
    Rewrites s actor p (({ s with nextBlock := n } : Stage α).commit actor p result).cause?
      (({ s with nextBlock := n } : Stage α).commit actor p result).effect := by
  obtain ⟨a, ha⟩ := Option.ne_none_iff_exists'.mp ha
  obtain ⟨hstage, hout⟩ := commit_eq (s := { s with nextBlock := n }) ha p result
  have hcause := commit_cause (s := { s with nextBlock := n }) ha p result
  refine ⟨⟨a, n, ha, hstage⟩, ?_, ?_⟩
  · intro htellable
    rw [hcause, show Program.flaw? .record blockRoom p = none from htellable]
    exact ⟨rfl, hout.trans (if_pos htellable)⟩
  · intro hflawed
    obtain ⟨flaw, hflaw⟩ := Option.ne_none_iff_exists'.mp hflawed
    rw [hcause, hflaw]
    exact ⟨⟨flaw, rfl⟩, hout.trans (if_neg hflawed)⟩

omit [Scalar α] in
theorem refuse_refuses {β : Type} (s : Stage α) (n : Nat) (cause : Error) :
    Refuses s cause (({ s with nextBlock := n } : Stage α).refuse (β := β) cause).cause?
      (({ s with nextBlock := n } : Stage α).refuse (β := β) cause).effect :=
  ⟨rfl, rfl, n, rfl⟩

omit [Scalar α] in
theorem refused_or_ok {β γ : Type} {s : Stage α} {x : Except Error β} {objections : List (Option Error)}
    {good : β → Prop} (hx : Answers objections good x) {r : Reply α (Except Error γ)}
    (hrefused : ∀ cause, x = .error cause → r = s.refuse cause)
    (hdone : ∀ found, x = .ok found → r.cause? = none) :
    (∀ cause, firstRaised objections = some cause → Refuses s cause r.cause? r.effect) ∧
      (firstRaised objections = none → r.cause? = none) := by
  unfold Answers at hx
  constructor
  · intro cause hcause
    rw [hcause] at hx
    rw [hrefused cause hx]
    exact refuse_refuses s s.nextBlock cause
  · intro hnone
    rw [hnone] at hx
    obtain ⟨found, hfound, -⟩ := hx
    exact hdone found hfound

private theorem editProgram_answered {β : Type} {s : Stage α} {actor : Int} (n : Nat)
    {f : Program α → Except Error (Program α × β)} {about : Program α → List (Option Error)}
    (hf : ∀ p, s.store.program? actor = some p → Answers (about p) (fun _ => True) (f p)) :
    Answered s actor (s.toEditing actor about)
      (({ s with nextBlock := n } : Stage α).editProgram actor f).cause?
      (({ s with nextBlock := n } : Stage α).editProgram actor f).effect := by
  have hanswers := edit_answers hf
  unfold Answers at hanswers
  unfold Answered
  have hsame : ({ s with nextBlock := n } : Stage α).programOf actor = s.programOf actor := rfl
  unfold editProgram
  rw [hsame]
  split at hanswers
  · rename_i cause _
    rw [hanswers]
    exact refuse_refuses s n cause
  · obtain ⟨⟨p, result⟩, hedit, hthere⟩ := hanswers
    rw [hedit]
    exact ⟨p, commit_rewrites hthere n p result⟩

private theorem Reachable.fits {s : Stage α} (h : Reachable s) :
    ∀ p ∈ s.store.programs, p.Fits s.world.catalog := by
  induction h with
  | empty h =>
    intro p hp
    rw [h.store] at hp
    cases hp
  | @act s h a ih =>
    have hdescends := perform_descends h.orderly a
    intro q hq
    obtain ⟨p, hp, hrevised⟩ := hdescends.program q hq
    rw [hdescends.catalog]
    apply hrevised.fits
    rcases hp with hp | rfl
    · exact ih p hp
    · exact Program.fits_nil _

/-- Each edit of a program is answered by the first objection to it, and otherwise made. -/
theorem perform_answered {s : Stage α} (h : Reachable s) {a : Act α} {actor : Int}
    (ha : a.edited? = some actor) : Answered s actor (s.objections a) (s.failure? a) (s.perform a) := by
  have hfits : ∀ p, s.store.program? actor = some p → p.Fits s.world.catalog :=
    fun p hp => h.fits p (Store.mem_programs_of_program? hp)
  cases a with
  | submit other typeId inputs parent =>
    cases ha
    have hblock := s.world.catalog.newBlock_answers (blockName s.nextBlock) typeId inputs
    simp only [Answered, objections, firstRaised, List.findSome?_append, failure?, perform, submit]
    unfold Answers firstRaised at hblock
    split at hblock
    · rename_i cause hcause
      rw [hcause, hblock]
      exact refuse_refuses s s.nextBlock cause
    · rename_i hnone
      obtain ⟨b, hb, -⟩ := hblock
      rw [hnone, hb]
      exact editProgram_answered (s.nextBlock + 1) fun p hp =>
        (Program.append_answers (hfits p hp) b parent).map fun _ _ => trivial
  | editInput other block name value =>
    cases ha
    exact editProgram_answered s.nextBlock fun p hp => Program.setInput_answers (hfits p hp) block name value
  | removeBlock other block =>
    cases ha
    exact editProgram_answered s.nextBlock fun p _ => p.remove_answers block
  | duplicate other block =>
    cases ha
    have hanswers : Answers (s.toEditing actor fun p => [p.absent block])
        (fun _ => s.store.get? actor ≠ none) ((s.programOf actor).bind (·.duplicate block s.nextBlock)) :=
      edit_answers fun p _ => p.duplicate_answers block s.nextBlock
    simp only [Answered, objections, failure?, perform, duplicate]
    unfold Answers at hanswers
    split at hanswers
    · rename_i cause _
      rw [hanswers]
      exact refuse_refuses s s.nextBlock cause
    · obtain ⟨⟨p, clone, next⟩, hedit, hthere⟩ := hanswers
      rw [hedit]
      exact ⟨p, commit_rewrites hthere next p clone⟩
  | reorder other source target =>
    cases ha
    exact editProgram_answered s.nextBlock fun p _ =>
      (p.reorder_answers source target).map fun _ _ => trivial
  | clearProgram other =>
    cases ha
    exact editProgram_answered s.nextBlock fun _ _ => .ok trivial
  | _ => cases ha

/-- On every reachable stage, an operation of an editor on an actor fails for the first objection that can be
raised against it; then nothing is told and nothing has changed but the next name for a block. Otherwise it
succeeds, and an edit of a program has written that program and told so in one event that names nothing else.
Only where the new program cannot be told does an edit fail that nothing was said against; it is made all the
same. -/
theorem edits_refused_or_made {s : Stage α} (h : Reachable s) {a : Act α} (ha : a.onActor = true) :
    (∀ cause, firstRaised (s.objections a) = some cause →
      Refuses s cause (s.failure? a) (s.perform a)) ∧
    (firstRaised (s.objections a) = none →
      (a.edited? = none → s.failure? a = none) ∧
      ∀ actor, a.edited? = some actor → ∃ p, Rewrites s actor p (s.failure? a) (s.perform a)) := by
  cases hedited : a.edited? with
  | some actor =>
    have hanswered := perform_answered h hedited
    unfold Answered at hanswered
    refine ⟨?_, fun hnone => ⟨by simp, ?_⟩⟩
    · intro cause hcause
      rw [hcause] at hanswered
      exact hanswered
    · intro other hother
      cases hother
      rw [hnone] at hanswered
      exact hanswered
  | none =>
    cases a with
    | deleteActor actor =>
      have hanswered := refused_or_ok (s.editable_answers actor) (r := s.deleteActor actor)
        (fun cause hcause => by rw [deleteActor, hcause]) (fun r hr => by rw [deleteActor, hr]; rfl)
      exact ⟨hanswered.1, fun hnone => ⟨fun _ => hanswered.2 hnone, by simp⟩⟩
    | selectActor actor =>
      have hanswered := refused_or_ok (s.get_answers actor) (r := s.selectActor actor)
        (fun cause hcause => by rw [selectActor, hcause]) (fun r hr => by rw [selectActor, hr]; rfl)
      exact ⟨hanswered.1, fun hnone => ⟨fun _ => hanswered.2 hnone, by simp⟩⟩
    | _ => simp_all [Act.onActor, Act.edited?]

/-- A stage whose first actor has a loop with one block inside. -/
def knotted : Stage Float :=
  ((new Settings.standard ⟨[], 0⟩).enact
    [.init, .submit 1 "repeat" [] none, .submit 1 "turn" [] (some "b1")]).1

theorem knotted_refused_or_made :
    Refuses knotted (.undeclaredInput "wait" "hours")
        (knotted.failure? (.submit 9 "wait" [("hours", .int 1)] (some "b9")))
        (knotted.perform (.submit 9 "wait" [("hours", .int 1)] (some "b9"))) ∧
      Refuses knotted (.notContainer "b2" "turn") (knotted.failure? (.submit 1 "wait" [] (some "b2")))
        (knotted.perform (.submit 1 "wait" [] (some "b2"))) ∧
      ∃ p, Rewrites knotted 1 p (knotted.failure? (.submit 1 "wait" [] (some "b1")))
        (knotted.perform (.submit 1 "wait" [] (some "b1"))) := by
  have hreachable : Reachable knotted := (Reachable.empty (new_isEmpty _ _)).enact _
  refine ⟨?_, ?_, ?_⟩
  · exact (edits_refused_or_made hreachable rfl).1 _ (by decide +kernel)
  · exact (edits_refused_or_made hreachable rfl).1 _ (by decide +kernel)
  · exact ((edits_refused_or_made hreachable rfl).2 (by decide +kernel)).2 1 rfl

/-- An edit fails although nothing can be said against it, and the program has changed after all. -/
theorem untellable_edit_kept :
    ∃ (s : Stage Float) (a : Act Float), Reachable s ∧ a.onActor = true ∧
      firstRaised (s.objections a) = none ∧ s.failure? a = some .tooDeep ∧
      (s.perform a).1.store.programs.map Program.ids ≠ s.store.programs.map Program.ids := by
  refine ⟨((new Settings.standard ⟨[], 0⟩).enact [.init]).1,
    .submit 1 "say" [("message", crate 254), ("duration", .int 0)] none, ?_, rfl, ?_, ?_, ?_⟩
  · exact (Reachable.empty (new_isEmpty _ _)).enact _
  · decide +kernel
  · decide +kernel
  · decide +kernel

end Stage

end SpriteStage
