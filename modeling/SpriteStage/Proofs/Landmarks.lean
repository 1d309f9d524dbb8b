import SpriteStage.Proofs.Doings
import SpriteStage.Proofs.Exchange
import SpriteStage.Proofs.Unrolling
/-!
# Landmarks of a run

The landmarks of a run are the events that tell its step, together with the marks that it leaves
in between.
-/
namespace SpriteStage

variable {α : Type}

namespace Event

def tellsStep (actor : Int) (e : Event α) : Bool :=
  match e.change with
  | .wrote p _ => e.actor == actor && p.stepIndex.isSome
  | _ => false

def opening (actor : Int) : Event α :=
  ⟨actor, .wrote { isRunning := some (.bool true), stepIndex := some (.int 0) } none⟩

def arrival (actor : Int) (index : Nat) : Event α :=
  ⟨actor, .wrote { stepIndex := some (.int index) } none⟩

/-- What the end of a run tells. Only a run that is not complete takes its message away. -/
def closing (actor : Int) (completed : Bool) : Event α :=
  ⟨actor, .wrote
    { isRunning := some (.bool false)
      stepIndex := some .null
      message := if completed then none else some .null } none⟩

@[simp]
theorem tellsStep_opening (actor : Int) : (opening actor : Event α).tellsStep actor = true := by
  simp [opening, tellsStep]

@[simp]
theorem tellsStep_arrival (actor : Int) (index : Nat) :
    (arrival actor index : Event α).tellsStep actor = true := by
  simp [arrival, tellsStep]

@[simp]
theorem tellsStep_closing (actor : Int) (completed : Bool) :
    (closing actor completed : Event α).tellsStep actor = true := by
  simp [closing, tellsStep]

theorem tellsStep_of_ne {actor : Int} {e : Event α} (h : e.actor ≠ actor) : e.tellsStep actor = false := by
  unfold tellsStep
  split
  · simp [h]
  · rfl

def tellsProgram (e : Event α) : Bool :=
  match e.change with
  | .wrote p _ => p.program.isSome
  | _ => false

theorem arrival_inj {actor other : Int} {i j : Nat}
    (h : (arrival actor i : Event α) = arrival other j) : actor = other ∧ i = j := by
  simp only [arrival, mk.injEq, Change.wrote.injEq, Patch.mk.injEq, Option.some.injEq,
    Value.int.injEq] at h
  exact ⟨h.1, by omega⟩

end Event

/-- Something that shows how far a run has come. -/
inductive Landmark (α : Type) where
  | step (e : Event α)
  | mark (m : Mark α)

namespace Landmark

def event? : Landmark α → Option (Event α)
  | .step e => some e
  | .mark _ => none

/-- The index of the block that a landmark tells the arrival at. -/
def arrival? : Landmark α → Option Nat
  | .step ⟨_, .wrote p _⟩ =>
    match p.isRunning, p.stepIndex with
    | none, some (.int index) => some index.toNat
    | _, _ => none
  | _ => none

def block? (p : Program α) (x : Landmark α) : Option (Block α) := x.arrival?.bind (p[·]?)

theorem event?_marks (ms : List (Mark α)) : (ms.map Landmark.mark).filterMap event? = [] := by
  simp [List.filterMap_map, Function.comp_def, event?]

private theorem block?_marks (p : Program α) (ms : List (Mark α)) :
    (ms.map Landmark.mark).filterMap (block? p) = [] := by
  simp [List.filterMap_map, Function.comp_def, block?, arrival?]

private theorem block?_arrival (p : Program α) (actor : Int) (index : Nat) :
    block? p (.step (.arrival actor index)) = p[index]? := by
  simp [block?, arrival?, Event.arrival]

theorem block?_opening (p : Program α) (actor : Int) : block? p (.step (.opening actor)) = none := by
  simp [block?, arrival?, Event.opening]

theorem block?_closing (p : Program α) (actor : Int) (completed : Bool) :
    block? p (.step (.closing actor completed)) = none := by
  simp [block?, arrival?, Event.closing]

end Landmark

def Signal.landmark? (actor : Int) : Signal α → Option (Landmark α)
  | .event e => if e.tellsStep actor then some (.step e) else none
  | x => (x.mark? actor).map .mark

def landmarks (actor : Int) (out : List (Signal α)) : List (Landmark α) :=
  out.filterMap (Signal.landmark? actor)

/-- A signal that does not tell the step of an actor. -/
def Signal.Stepless (actor : Int) (x : Signal α) : Prop := ∀ e, x = .event e → e.tellsStep actor = false

section Landmarks

variable {actor : Int} {out : List (Signal α)}

theorem landmarks_append (actor : Int) (out more : List (Signal α)) :
    landmarks actor (out ++ more) = landmarks actor out ++ landmarks actor more :=
  List.filterMap_append

theorem landmarks_step {e : Event α} (h : e.tellsStep actor = true) :
    landmarks actor [.event e] = [.step e] := by
  simp [landmarks, Signal.landmark?, h]

/-- Where no step is told, the landmarks are marks. -/
theorem landmarks_stepless (h : ∀ x ∈ out, x.Stepless actor) :
    landmarks actor out = (marks actor out).map .mark := by
  rw [marks, List.map_filterMap]
  apply List.filterMap_congr
  intro x hx
  cases x with
  | event e =>
    have hquiet := h _ hx e rfl
    simp [Signal.landmark?, Signal.mark?, hquiet]
  | notice n => rfl
  | dispatched a b inputs => rfl
  | pass a => rfl

theorem Signal.Of.stepless {other : Int} (hne : other ≠ actor) {x : Signal α} (h : x.Of other) :
    x.Stepless actor := by
  rintro e rfl
  have hother : e.actor = other := h
  exact Event.tellsStep_of_ne (hother ▸ hne)

end Landmarks

/-- An event that tells neither the step nor the program of an actor. -/
def Event.Minor (e : Event α) : Prop :=
  ∃ p point, e.change = .wrote p point ∧ p.stepIndex = none ∧ p.program = none

private theorem Event.Minor.tellsProgram {e : Event α} (h : e.Minor) : e.tellsProgram = false := by
  obtain ⟨p, point, hchange, -, hprogram⟩ := h
  simp [Event.tellsProgram, hchange, hprogram]

private theorem Event.tellsStep_of_none {e : Event α} {p : Patch α} {point : Option (Point α)}
    (he : e.change = .wrote p point) (h : p.stepIndex = none) (actor : Int) :
    e.tellsStep actor = false := by
  simp [tellsStep, he, h]

theorem Store.Deals.events {pool : Program α → Prop} {st st' : Store α} {out : List (Signal α)}
    (h : Deals pool st out st') {e : Event α} (he : .event e ∈ out) :
    ∃ p, e.change = .wrote { program := some p } none := by
  induction h with
  | nil st => simp at he
  | notice n _ ih => exact ih (by simpa using he)
  | @told st st' out id a p _ _ _ _ ih =>
    rcases List.mem_cons.mp he with heq | he
    · cases heq
      exact ⟨p, rfl⟩
    · exact ih he
  | untold _ _ _ _ ih => exact ih he

variable [Scalar α]

/-- What a run tells inside of a top-level block is minor. -/
theorem Doing.events {actor : Int} {w w' : World α} {out : List (Signal α)} (h : Doing actor w out w')
    {e : Event α} (he : .event e ∈ out) : e.Minor := by
  induction h with
  | nil w => simp at he
  | tell x aside _ ih =>
    rcases List.mem_cons.mp he with rfl | he
    · exact aside.elim
    · exact ih he
  | write plain step written _ ih =>
    rcases List.mem_append.mp he with he | he
    · obtain ⟨-, -, -, rfl⟩ := World.write_eq_ok.mp written
      cases List.mem_singleton.mp he
      exact ⟨_, _, rfl, step, plain.program⟩
    · exact ih he
  | move point glided _ ih =>
    rcases List.mem_append.mp he with he | he
    · obtain ⟨-, -, -, rfl⟩ := World.glide_eq_ok.mp glided
      cases List.mem_singleton.mp he
      exact ⟨_, _, rfl, rfl, rfl⟩
    · exact ih he

theorem Doing.stepless {actor : Int} {w w' : World α} {out : List (Signal α)} (h : Doing actor w out w')
    (other : Int) : ∀ x ∈ out, x.Stepless other := by
  rintro x hx e rfl
  obtain ⟨p, point, hchange, hstep, -⟩ := h.events hx
  exact Event.tellsStep_of_none hchange hstep other

theorem World.collide_stepless (w : World α) (room : Nat) (actor other : Int) :
    ∀ x ∈ .pass other :: (w.collide room).2.1, x.Stepless actor := by
  rintro x hx e rfl
  have hall : w.store.Within fun _ => True := fun _ _ => trivial
  obtain ⟨p, hchange⟩ := (collide_deals hall room).events (by simpa using hx)
  exact Event.tellsStep_of_none hchange rfl actor

/-! ## The course of blocks -/

/-- The landmarks of a run that comes to some top-level blocks, the first of which has a given index. -/
def stays (c : Catalog α) (actor : Int) (index : Nat) : List (Block α) → List (Landmark α)
  | [] => []
  | b :: rest =>
    .step (.arrival actor index) ::
      ((Block.route c b ++ [Mark.pass]).map .mark ++ stays c actor (index + 1) rest)

theorem stays_append (c : Catalog α) (actor : Int) (index : Nat) (blocks more : List (Block α)) :
    stays c actor index (blocks ++ more) =
      stays c actor index blocks ++ stays c actor (index + blocks.length) more := by
  induction blocks generalizing index with
  | nil => rfl
  | cons b blocks ih =>
    have hindex : index + 1 + blocks.length = index + (b :: blocks).length := by
      rw [List.length_cons]
      omega
    rw [List.cons_append, stays, stays, ih, hindex]
    simp

/-- The steps that are told on the way are numbered one after the other. -/
theorem stays_events (c : Catalog α) (actor : Int) (index : Nat) (blocks : List (Block α)) :
    (stays c actor index blocks).filterMap Landmark.event? =
      (List.range' index blocks.length).map (Event.arrival actor) := by
  induction blocks generalizing index with
  | nil => rfl
  | cons b blocks ih =>
    have hstep : Landmark.event? (.step (Event.arrival actor index : Event α)) =
      some (.arrival actor index) := rfl
    rw [stays, List.length_cons, List.range'_succ, List.map_cons, List.filterMap_cons_some hstep,
      List.filterMap_append, Landmark.event?_marks, List.nil_append, ih]

/-- How many top-level blocks a run has come to that is suspended somewhere. -/
def Place.arrivals : Place α → Nat
  | .fresh => 0
  | .asleep _ _ _ index => index + 1
  | .turn _ index => index + 1

def Halt.StaysAt (index : Nat) : Halt α → Prop
  | .sleep _ place => place.arrivals = index + 1
  | .pass place => place.arrivals = index + 1
  | .done outcome => outcome = .cancelled

private theorem Moment.dispatch_sequence_staysAt (m : Moment α) :
    (∀ (b : Block α) rest loops w a, dispatch m rest loops w b = .inl a → a.halt.StaysAt m.index) ∧
    ∀ (p : Program α) loops w, (sequence m loops w p).halt.StaysAt m.index := by
  apply Block.induction
  case block =>
    intro id typeId raw children ih rest loops w a ha
    have hreaches := dispatch_reaches m rest loops w ⟨id, typeId, raw, children⟩
    rw [ha] at hreaches
    generalize hresult : (Sum.inl a : Activity α ⊕ World α × List (Signal α)) = result at hreaches
    cases hreaches with
    | refused noted =>
      cases hresult
      exact rfl
    | skipped _ => cases hresult
    | broken _ _ =>
      cases hresult
      exact rfl
    | idle _ _ _ => cases hresult
    | enter _ _ _ =>
      cases hresult
      exact ih _ w
    | leaf _ _ _ =>
      unfold afterLeaf at hresult
      split at hresult
      · cases hresult
      · cases hresult
        exact rfl
      · cases hresult
        exact rfl
  case nil =>
    intro loops w
    rw [sequence]
    exact rfl
  case cons =>
    intro b rest hb hrest loops w
    rw [sequence]
    split
    · rename_i a ha
      exact hb rest loops w a ha
    · exact hrest loops _

theorem Moment.next_cons (m : Moment α) (w : World α) (l : Loop α) (loops : List (Loop α)) :
    ∃ inner q, next m w (l :: loops) = sequence m inner w q := by
  cases hleft : l.left with
  | zero => exact ⟨loops, l.after, by simp only [next, hleft]⟩
  | succ left => exact ⟨{ l with left } :: loops, l.body, by simp only [next, hleft]⟩

/-- How an activity ends whose landmarks are the first of those in `whole`, if the run has then come to
`count` blocks and the actor holds a program. -/
def Halt.Leaves (c : Catalog α) (p : Program α) (count : Nat) (left whole : List (Landmark α)) :
    Halt α → Prop
  | .sleep _ place => left ++ (place.ahead c []).map .mark = whole ∧ place.arrivals = count
  | .pass place => left ++ (place.ahead c []).map .mark = whole ∧ place.arrivals = count
  | .done .completed => left = whole ∧ p.length ≤ count
  | .done outcome => outcome = .cancelled ∧ ∃ rest : List (Mark α), left ++ rest.map .mark = whole

private theorem Halt.Leaves.after {c : Catalog α} {p : Program α} {count : Nat} {left whole : List (Landmark α)}
    {halt : Halt α} (h : halt.Leaves c p count left whole) (before : List (Landmark α)) :
    halt.Leaves c p count (before ++ left) (before ++ whole) := by
  cases halt with
  | sleep seconds place => exact ⟨by rw [List.append_assoc, h.1], h.2⟩
  | pass place => exact ⟨by rw [List.append_assoc, h.1], h.2⟩
  | done outcome =>
    cases outcome with
    | completed => exact ⟨by rw [h.1], h.2⟩
    | idle | running | cancelled =>
      obtain ⟨houtcome, rest, hrest⟩ := h
      exact ⟨houtcome, rest, by rw [List.append_assoc, hrest]⟩

private theorem Activity.Keeps.leaves {c : Catalog α} {actor : Int} {todo : List (Mark α)} {a : Activity α}
    (h : a.Keeps c [] actor todo) {index : Nat} (hstays : a.halt.StaysAt index)
    (hquiet : ∀ x ∈ a.out, x.Stepless actor) (p : Program α) :
    a.halt.Leaves c p (index + 1) (landmarks actor a.out) (todo.map .mark) := by
  obtain ⟨w, out, halt⟩ := a
  rw [landmarks_stepless hquiet]
  unfold Activity.Keeps at h
  cases halt with
  | sleep seconds place => exact ⟨by rw [← List.map_append, h], hstays⟩
  | pass place => exact ⟨by rw [← List.map_append, h], hstays⟩
  | done outcome =>
    cases hstays
    obtain ⟨rest, hrest⟩ := h
    exact ⟨rfl, rest, by rw [← List.map_append, hrest]⟩

/-- Starting a top-level block: the run comes to the block that the actor's program has at the index, if
there is one, and goes on with the marks of that block. -/
theorem Moment.step_leaves (m : Moment α) {c : Catalog α} {p : Program α} {w : World α}
    (hc : w.catalog = c) (hp : ∀ a, w.store.get? m.actor = some a → a.program = p)
    {reached : List (Block α)}
    (hreached : (landmarks m.actor (step m w).out).filterMap (Landmark.block? p) = reached) :
    (step m w).halt.Leaves c p (m.index + reached.length) (landmarks m.actor (step m w).out)
      (stays c m.actor m.index reached) := by
  rcases step_cases m w with ⟨-, hs⟩ | ⟨a, ha, hnone, hs⟩ | ⟨a, b, w₁, said, ha, hb, written, hs⟩
  · rw [hs] at hreached ⊢
    have hsilent : landmarks m.actor (Activity.fail w m.actor).out = [] := rfl
    rw [hsilent] at hreached ⊢
    subst hreached
    exact ⟨rfl, [], rfl⟩
  · rw [hs] at hreached ⊢
    subst hreached
    rw [hp a ha] at hnone
    exact ⟨rfl, List.getElem?_eq_none_iff.mp hnone⟩
  · rw [hs] at hreached ⊢
    rw [hp a ha] at hb
    have hc₁ : w₁.catalog = c := (World.frame_write written).catalog.trans hc
    have htodo : m.todo c [] [b] [] = Block.route c b ++ [.pass] := by
      simp [todo, ahead, Program.route, Program.itinerary]
    have hquiet := (Doing.sequence m [] w₁ [b]).stepless m.actor
    have hstays := (dispatch_sequence_staysAt m).2 [b] [] w₁
    have hkeeps := (sequence_keeps m [] [b] [] hc₁).leaves hstays hquiet p
    rw [htodo] at hkeeps
    have hsaid : landmarks m.actor said = [.step (.arrival m.actor m.index)] := by
      obtain ⟨-, -, -, rfl⟩ := World.write_eq_ok.mp written
      exact landmarks_step (Event.tellsStep_arrival m.actor m.index)
    simp only [Activity.after, landmarks_append, hsaid] at hreached ⊢
    rw [List.filterMap_append, List.filterMap_cons, Landmark.block?_arrival, hb,
      landmarks_stepless hquiet, Landmark.block?_marks] at hreached
    subst hreached
    have hwhole := hkeeps.after [.step (.arrival m.actor m.index)]
    simp only [List.append_nil, stays, List.filterMap_nil, List.length_singleton,
      List.singleton_append] at hwhole ⊢
    exact hwhole

def Signal.block? (actor : Int) : Signal α → Option (Block α)
  | .dispatched a b _ => if a = actor then some b else none
  | _ => none

/-- Signals in which a block is the first to be started, unless the run fails before it starts any. Nobody is
given another program meanwhile. -/
structure Starts (actor : Int) (b : Block α) (out : List (Signal α)) : Prop where
  programs : ∀ e, .event e ∈ out → e.tellsProgram = false
  first : (out.filterMap (Signal.block? actor)).head? = some b ∨
    out.filterMap (Signal.block? actor) = [] ∧ .notice (.programFailed actor) ∈ out

omit [Scalar α] in
theorem Starts.append {actor : Int} {b : Block α} {out more : List (Signal α)} (h : Starts actor b out)
    (hprograms : ∀ e, .event e ∈ more → e.tellsProgram = false)
    (hblocks : ∀ x ∈ more, x.block? actor = none) : Starts actor b (out ++ more) := by
  refine ⟨?_, ?_⟩
  · intro e he
    rcases List.mem_append.mp he with he | he
    · exact h.programs e he
    · exact hprograms e he
  · rw [List.filterMap_append, List.filterMap_eq_nil_iff.mpr hblocks, List.append_nil]
    rcases h.first with hfirst | ⟨hnone, hfailed⟩
    · exact .inl hfirst
    · exact .inr ⟨hnone, List.mem_append_left _ hfailed⟩

omit [Scalar α] in
theorem Moment.block?_announced (m : Moment α) (b : Block α) (noted : List (Notice α))
    (inputs : Fields α) (more : List (Signal α)) :
    ((m.announced b noted inputs ++ more).filterMap (Signal.block? m.actor)).head? = some b := by
  have hnoted : (noted.map Signal.notice).filterMap (Signal.block? m.actor) = ([] : List (Block α)) := by
    simp [List.filterMap_map, Function.comp_def, Signal.block?]
  rw [announced, List.append_assoc, List.filterMap_append, hnoted]
  simp [Signal.block?]

private theorem Moment.sequence_starts (m : Moment α) (loops : List (Loop α)) (w : World α) (b : Block α)
    (rest : Program α) : Starts m.actor b (m.sequence loops w (b :: rest)).out := by
  refine ⟨fun e he => ((Doing.sequence m loops w (b :: rest)).events he).tellsProgram, ?_⟩
  have hreaches := dispatch_reaches m rest loops w b
  rw [sequence]
  generalize dispatch m rest loops w b = result at hreaches
  cases hreaches with
  | refused noted =>
    refine .inr ⟨?_, by simp [Activity.after, Activity.fail]⟩
    simp [Activity.after, Activity.fail, List.filterMap_map, Function.comp_def, Signal.block?]
  | skipped _ => exact .inl (by simp [Activity.after, Signal.block?])
  | broken _ _ => exact .inl (block?_announced _ _ _ _ _)
  | idle _ _ _ => exact .inl (block?_announced _ _ _ _ _)
  | enter _ _ _ => exact .inl (block?_announced _ _ _ _ _)
  | @leaf noted inputs i _ _ _ =>
    cases Leaf.begin w (w.roomBelow loops.length) m.now m.actor i with
    | finished w' more =>
      refine .inl ?_
      simp only [afterLeaf, Activity.after, List.append_assoc]
      exact block?_announced _ _ _ _ _
    | sleeping w' more seconds pause => exact .inl (block?_announced _ _ _ _ _)
    | failed w' more =>
      refine .inl ?_
      simp only [afterLeaf, Activity.after, List.append_assoc]
      exact block?_announced _ _ _ _ _

/-- The index of a block of the actor's program is told, and then the block is started. -/
def Arrives (actor : Int) (index : Nat) (st : Store α) (out : List (Signal α)) : Prop :=
  ∃ (said more : List (Signal α)) (p : Program α) (b : Block α),
    out = said ++ .event (.arrival actor index) :: more ∧ (∀ x ∈ said, x.Stepless actor) ∧
      (∀ x ∈ more, x.Stepless actor) ∧ st.program? actor = some p ∧ p[index]? = some b ∧
      Starts actor b more

omit [Scalar α] in
theorem Arrives.after {actor : Int} {index : Nat} {st : Store α} {out before : List (Signal α)}
    (h : Arrives actor index st out) (hbefore : ∀ x ∈ before, x.Stepless actor) :
    Arrives actor index st (before ++ out) := by
  obtain ⟨said, more, p, b, rfl, hsaid, hmore, hp, hb, hstarts⟩ := h
  refine ⟨before ++ said, more, p, b, (List.append_assoc _ _ _).symm, ?_, hmore, hp, hb, hstarts⟩
  intro x hx
  rcases List.mem_append.mp hx with hx | hx
  · exact hbefore x hx
  · exact hsaid x hx

private theorem Moment.step_arrives (m : Moment α) (w : World α) :
    (∀ x ∈ (step m w).out, x.Stepless m.actor) ∨
      Arrives m.actor m.index (step m w).world.store (step m w).out := by
  rcases step_cases m w with ⟨-, hs⟩ | ⟨a, -, -, hs⟩ | ⟨a, b, w₁, said, ha, hb, written, hs⟩
  · rw [hs]
    exact .inl ((Doing.fail w m.actor).stepless m.actor)
  · rw [hs]
    exact .inl (by simp)
  · have hprogram : (step m w).world.store.program? m.actor = some a.program := by
      have hsame := (step_own m w).programs m.actor
      rw [ha] at hsame
      exact hsame
    rw [hs] at hprogram ⊢
    obtain ⟨-, -, -, rfl⟩ := World.write_eq_ok.mp written
    have hmore := (Doing.sequence m [] w₁ [b]).stepless m.actor
    exact .inr ⟨[], _, a.program, b, rfl, by simp, hmore, hprogram, hb, sequence_starts m [] w₁ b []⟩

/-- The only step that a resumption can tell is the next one. -/
theorem Place.resume_arrives (now : α) (actor : Int) (w : World α) (place : Place α) :
    (∀ x ∈ (place.resume now actor w).out, x.Stepless actor) ∨
      Arrives actor place.arrivals (place.resume now actor w).world.store
        (place.resume now actor w).out := by
  cases place with
  | fresh => exact Moment.step_arrives ⟨now, actor, 0⟩ w
  | asleep pause rest loops index =>
    exact .inl ((Doing.asleep now actor w pause rest loops index).stepless actor)
  | turn loops index =>
    have hpass := w.collide_stepless (w.passRoom loops.length) actor actor
    have hquiet : ∀ {a : Activity α}, (∀ x ∈ a.out, x.Stepless actor) →
        ∀ x ∈ (a.after (.pass actor :: (w.collide (w.passRoom loops.length)).2.1)).out,
          x.Stepless actor := by
      intro a ha x hx
      rcases List.mem_append.mp hx with hx | hx
      · exact hpass x hx
      · exact ha x hx
    rw [resume_turn]
    unfold afterPass
    split
    · exact .inl (hquiet ((Doing.fail _ actor).stepless actor))
    · cases loops with
      | nil =>
        rcases Moment.step_arrives ⟨now, actor, index + 1⟩ (w.collide (w.passRoom 0)).1 with
          hstep | harrives
        · exact .inl (hquiet hstep)
        · exact .inr (harrives.after hpass)
      | cons l loops =>
        obtain ⟨inner, q, hnext⟩ :=
          Moment.next_cons ⟨now, actor, index⟩ (w.collide (w.passRoom (l :: loops).length)).1 l loops
        rw [hnext]
        exact .inl (hquiet ((Doing.sequence ⟨now, actor, index⟩ inner _ q).stepless actor))

/-- A resumption goes on with what is left of the block that the run has come to, and with the next one after
it. The program that counts is the one that the actor holds after the collision pass. -/
theorem Place.resume_leaves (now : α) (actor : Int) {c : Catalog α} {p : Program α} {w : World α}
    (place : Place α) (hc : w.catalog = c)
    (hp : ∀ a, (place.resume now actor w).world.store.get? actor = some a → a.program = p)
    {reached : List (Block α)}
    (hreached : (landmarks actor (place.resume now actor w).out).filterMap (Landmark.block? p) = reached) :
    (place.resume now actor w).halt.Leaves c p (place.arrivals + reached.length)
      (landmarks actor (place.resume now actor w).out)
      ((place.ahead c []).map .mark ++ stays c actor place.arrivals reached) := by
  cases place with
  | fresh =>
    have hown := Moment.step_own ⟨now, actor, 0⟩ w
    exact Moment.step_leaves ⟨now, actor, 0⟩ hc (hown.program_before hp) hreached
  | asleep pause rest loops index =>
    have hquiet := (Doing.asleep now actor w pause rest loops index).stepless actor
    rw [landmarks_stepless hquiet, Landmark.block?_marks] at hreached
    subst hreached
    have hstays : ((Place.asleep pause rest loops index).resume now actor w).halt.StaysAt index := by
      simp only [Place.resume]
      split
      · exact (Moment.dispatch_sequence_staysAt ⟨now, actor, index⟩).2 rest loops _
      · exact rfl
      · exact rfl
    have hleaves := (resume_asleep_keeps now actor [] hc pause rest loops index).leaves hstays hquiet p
    simp only [stays, List.append_nil]
    exact hleaves
  | turn loops index =>
    rw [resume_turn] at hp hreached ⊢
    have hown := afterPass_own now actor loops index (w.collide (w.passRoom loops.length))
    have hprogram := hown.program_before hp
    have hc' : (w.collide (w.passRoom loops.length)).1.catalog = c := hc
    have hpass : landmarks actor (.pass actor :: (w.collide (w.passRoom loops.length)).2.1) =
        [.mark .pass] := by
      rw [landmarks_stepless (w.collide_stepless _ actor actor), World.marks_collide, if_pos rfl]
      rfl
    have hskip : [Landmark.mark Mark.pass].filterMap (Landmark.block? p) = [] := rfl
    simp only [Activity.after, landmarks_append, hpass] at hreached ⊢
    rw [List.filterMap_append, hskip, List.nil_append] at hreached
    unfold afterPass at hreached ⊢
    split
    · rename_i cause hcause
      rw [hcause] at hreached
      have hsilent : landmarks actor
          (Activity.fail (w.collide (w.passRoom loops.length)).1 actor).out = [] := rfl
      rw [hsilent] at hreached ⊢
      subst hreached
      exact ⟨rfl, SpriteStage.ahead c [] index loops, (List.append_nil _).symm⟩
    · rename_i swapped hswapped
      rw [hswapped] at hreached
      dsimp only at hreached
      cases loops with
      | nil =>
        have hstep := Moment.step_leaves ⟨now, actor, index + 1⟩ hc' hprogram hreached
        exact hstep.after [.mark .pass]
      | cons l loops =>
        -- The loop goes on with the blocks that it was entered with.
        obtain ⟨inner, q, hnext⟩ :=
          Moment.next_cons ⟨now, actor, index⟩ (w.collide (w.passRoom (l :: loops).length)).1 l loops
        have hkeeps := Moment.next_cons_keeps ⟨now, actor, index⟩ [] hc' l loops
        rw [hnext] at hreached hkeeps ⊢
        have hquiet := (Doing.sequence ⟨now, actor, index⟩ inner
          (w.collide (w.passRoom (l :: loops).length)).1 q).stepless actor
        rw [landmarks_stepless hquiet, Landmark.block?_marks] at hreached
        subst hreached
        have hstays := (Moment.dispatch_sequence_staysAt ⟨now, actor, index⟩).2 q inner
          (w.collide (w.passRoom (l :: loops).length)).1
        have hleaves := (hkeeps.leaves hstays hquiet p).after [.mark .pass]
        simp only [stays, List.append_nil]
        exact hleaves

end SpriteStage
