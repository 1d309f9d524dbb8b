import SpriteStage.Proofs.Clock
import SpriteStage.Proofs.Conservation
import SpriteStage.Proofs.Legs
import SpriteStage.Proofs.Resolution
/-!
# Programs that go through

A program whose blocks can all be run with their raw values goes through: no block of it fails,
neither when it starts nor after a sleep, and so the run is complete when it ends, unless somebody
stops it. For this its loops must not be nested too deep, the programs that may be swapped under
it must be as good, and time must not go back.
-/
namespace SpriteStage

section Shares

variable {α : Type} [Scalar α]

/-- Whether a number does not lie outside of zero and one. -/
def IsShare (x : α) : Prop := Scalar.lt x Scalar.zero = false ∧ Scalar.lt Scalar.one x = false

end Shares

/-- Numbers whose differences and quotients lie where they should. -/
class Gradual (α : Type) [Scalar α] : Prop where
  isShare_one : IsShare (Scalar.one : α)
  quotient_not_below : ∀ {start now duration : α}, Scalar.lt now start = false →
    Scalar.le duration Scalar.zero = false → Scalar.lt ((now - start) / duration) Scalar.zero = false
  isShare_remainder : ∀ {p : α}, IsShare p → IsShare (Scalar.one - p)

/-- Numbers whose third powers are in range between zero and one. How powers of binary64 numbers are computed is
left open, so of these it has to be assumed. -/
class Cubic (α : Type) [Scalar α] : Prop where
  isSome_cube? : ∀ {x : α}, IsShare x → (Scalar.cube? x).isSome = true

variable {α : Type} [Scalar α]

theorem Span.isShare_progress [Gradual α] {s : Span α} {now : α} (hbegun : Scalar.lt now s.start = false)
    (hlasts : Scalar.le s.duration Scalar.zero = false) : IsShare (s.progress now) := by
  unfold progress Scalar.least
  split
  · exact Gradual.isShare_one
  · rename_i hle
    exact ⟨Gradual.quotient_not_below hbegun hlasts, by simpa using hle⟩

private theorem Easing.apply_isOk [Gradual α] [Cubic α] (easing : Easing) {p : α} (h : IsShare p) :
    ∃ t, easing.apply p = .ok t := by
  cases easing with
  | linear => exact ⟨p, rfl⟩
  | easeOutCubic =>
    obtain ⟨c, hc⟩ := Option.isSome_iff_exists.mp (Cubic.isSome_cube? (Gradual.isShare_remainder h))
    exact ⟨Scalar.one - c, by simp only [apply, hc]⟩

/-! ## Programs -/

mutual

/-- Whether a block and the blocks inside of it can be run with their raw values, with no more than so many loops
around them. -/
def Block.isSound : Nat → Block α → Bool
  | levels, ⟨_, typeId, raw, children⟩ =>
    Catalog.builtIn.serves typeId raw &&
      match levels with
      | 0 => children.isEmpty
      | levels + 1 => Program.isSound levels children

def Program.isSound : Nat → List (Block α) → Bool
  | _, [] => true
  | levels, b :: rest => Block.isSound levels b && Program.isSound levels rest

end

private theorem Program.isSound_iff {levels : Nat} {p : Program α} :
    Program.isSound levels p = true ↔ ∀ b ∈ p, Block.isSound levels b = true := by
  induction p with
  | nil => simp [isSound]
  | cons b rest ih => rw [isSound, Bool.and_eq_true, ih, List.forall_mem_cons]

/-- Whether a run can go on after a block inside of some loops, where so many more could be nested. -/
def LoopsSound : Nat → List (Loop α) → Prop
  | _, [] => True
  | levels, l :: loops =>
    Program.isSound levels l.body = true ∧ Program.isSound (levels + 1) l.after = true ∧
      LoopsSound (levels + 1) loops

/-- Signals none of which tells that a program has failed. -/
def Calm (out : List (Signal α)) : Prop := ∀ actor, .notice (.programFailed actor) ∉ out

omit [Scalar α] in
theorem Calm.append {out more : List (Signal α)} (h : Calm out) (h' : Calm more) : Calm (out ++ more) := by
  intro actor hmem
  rcases List.mem_append.mp hmem with hmem | hmem
  · exact h actor hmem
  · exact h' actor hmem

omit [Scalar α] in
theorem Calm.ofPlain {out : List (Signal α)} (h : ∀ x ∈ out, x.Plain) : Calm out := fun _ hmem => h _ hmem

omit [Scalar α] in
theorem Calm.ofEvents {out : List (Signal α)} (h : ∀ x ∈ out, ∃ e, x = .event e) : Calm out := by
  intro actor hmem
  obtain ⟨e, he⟩ := h _ hmem
  cases he

/-! ## Blocks that are no loops -/

/-- A world in which the program of an actor can be run, with so many loops nested in it. -/
structure World.Ready (levels : Nat) (actor : Int) (w : World α) : Prop where
  catalog : w.catalog = Catalog.builtIn
  room : 4 * levels + frameSteps ≤ w.runRoom
  present : actor ∈ w.store.ids
  sized : w.store.Sized

open Timeline

/-- A sleep in the middle of a motion that has begun. -/
def Pause.Begun [Timeline α] (now : α) : Pause α → Prop
  | .frame _ span =>
    IsTime span.start ∧ Scalar.lt now span.start = false ∧ Scalar.le span.duration Scalar.zero = false
  | _ => True

def Leaf.Sound [Timeline α] (now : α) : Leaf α → Prop
  | .finished _ out => Calm out
  | .sleeping _ out _ pause => Calm out ∧ pause.Begun now
  | .failed _ _ => False

def Leaf.fails : Leaf α → Bool
  | .failed _ _ => true
  | _ => false

namespace Motion

variable {w : World α} {actor : Int}

private theorem draw_isOk (h : actor ∈ w.store.ids) (m : Motion α) (t : α) :
    ∃ w' out, m.draw w actor t = .ok (w', out) := by
  obtain ⟨a, ha⟩ := Option.isSome_iff_exists.mp (Store.isSome_get?.mpr h)
  cases m with
  | glide start stop => exact ⟨_, _, World.glide_eq_ok.mpr ⟨a, ha, rfl, rfl⟩⟩
  | turn start degrees => exact ⟨_, _, World.write_of_get? ha _⟩
  | resize start stop => exact ⟨_, _, World.write_of_get? ha _⟩

theorem frame_isOk [Gradual α] [Cubic α] (h : actor ∈ w.store.ids) (m : Motion α) {room : Nat}
    (hroom : frameSteps ≤ room) {progress : α} (hshare : IsShare progress) :
    ∃ w' out, m.frame w room actor progress = .ok (w', out) := by
  obtain ⟨t, ht⟩ := m.easing.apply_isOk hshare
  obtain ⟨w', out, hdraw⟩ := draw_isOk h m t
  refine ⟨w', out, ?_⟩
  simp only [frame, descend, if_pos hroom, ht]
  exact hdraw

private theorem plan_isOk {confine : Point α → Point α} {a : Actor α} (hsize : ∃ x, a.size = .real x)
    {i : Instruction α} {plan : Except Error (Motion α × α)} (h : plan? confine a i = some plan) :
    (∃ p, plan = .ok p) ↔ i.isFeasible = true := by
  obtain ⟨size, hsize⟩ := hsize
  have hextent : a.extent = .ok (.real size) := by simp [Actor.extent, hsize, Value.number?]
  have hmeasure : ∀ n : Number α, n.hasScalar = n.toScalar.toOption.isSome := by
    intro n
    rw [Bool.eq_iff_iff, Number.hasScalar_iff]
    cases n.toScalar <;> simp [Except.toOption]
  simp only [Instruction.isFeasible]
  cases i with
  | move n | turn n =>
    cases h
    simp only [Instruction.measures, List.all_cons, List.all_nil, hmeasure]
    cases n.toScalar <;> simp [bind, Except.bind, Except.toOption, pure, Except.pure]
  | goto x y =>
    cases h
    simp only [Instruction.measures, List.all_cons, List.all_nil, hmeasure]
    cases x.toScalar <;> cases y.toScalar <;>
      simp [bind, Except.bind, Except.toOption, pure, Except.pure]
  | resize n =>
    cases h
    simp only [Instruction.measures, List.all_cons, List.all_nil, hmeasure, hextent]
    cases n.toScalar <;> simp [bind, Except.bind, Except.toOption, pure, Except.pure, Number.toScalar]
  | wait _ | say _ _ | recolour _ | loop _ => cases h

end Motion

namespace Leaf

variable {w : World α} {actor : Int} {room : Nat} {now : α}

private theorem ofMotion_sound [Timeline α] [Gradual α] [Cubic α] (h : actor ∈ w.store.ids)
    (hroom : frameSteps ≤ room) (hnow : IsTime now) (m : Motion α) (seconds : α) :
    (ofMotion w room now actor m seconds).Sound now := by
  unfold ofMotion
  split
  · obtain ⟨w', out, hframe⟩ := Motion.frame_isOk h m hroom Gradual.isShare_one
    rw [hframe]
    exact Calm.ofEvents (Motion.frame_deed hframe).events
  · rename_i hlasts
    have hsteps : ¬ room < motionSteps := Nat.not_lt.mpr (Nat.le_trans (by decide) hroom)
    rw [if_neg hsteps]
    exact ⟨Calm.ofPlain (by simp), hnow, lt_irrefl hnow, by simpa using hlasts⟩

private theorem start_sound [Timeline α] [Gradual α] [Cubic α] {a : Actor α} (ha : w.store.get? a.id = some a)
    (hsize : ∃ x, a.size = .real x) (hroom : frameSteps ≤ room) (hnow : IsTime now) {i : Instruction α}
    (hfeasible : i.isFeasible = true) : ∃ leaf, start w room now a i = .ok leaf ∧ leaf.Sound now := by
  have hid : a.id ∈ w.store.ids := Store.isSome_get?.mp (by simp [ha])
  have hdescend : ∀ steps ≤ frameSteps, descend room steps = .ok () :=
    fun steps hsteps => if_pos (Nat.le_trans hsteps hroom)
  cases hplan : Motion.plan? w.settings.confine a i with
  | some plan =>
    obtain ⟨p, rfl⟩ := (Motion.plan_isOk hsize hplan).mpr hfeasible
    exact ⟨_, start_plan hplan room now, ofMotion_sound hid hroom hnow p.1 _⟩
  | none =>
    cases i with
    | wait seconds =>
      obtain ⟨x, hx⟩ := Number.hasScalar_iff.mp ((Bool.and_true _).symm.trans hfeasible)
      refine ⟨_, by simp only [start, rest, hdescend sleepSteps (by decide), hx]; rfl, ?_⟩
      exact ⟨Calm.ofPlain (by simp), trivial⟩
    | say message seconds =>
      obtain ⟨x, hx⟩ := Number.hasScalar_iff.mp ((Bool.and_true _).symm.trans hfeasible)
      refine ⟨_, by simp only [start, hx, hdescend messageSteps (by decide), World.write_of_get? ha]; rfl, ?_⟩
      exact ⟨Calm.ofPlain (by simp [Signal.Plain]), trivial⟩
    | recolour index =>
      refine ⟨_, by simp only [start, hdescend lookSteps (by decide), World.write_of_get? ha]; rfl, ?_⟩
      exact Calm.ofPlain (by simp [Signal.Plain])
    | loop times => exact ⟨_, rfl, Calm.ofPlain (by simp)⟩
    | move _ | turn _ | goto _ _ | resize _ => cases hplan

private theorem start_error {a : Actor α} (hsize : ∃ x, a.size = .real x) (room : Nat) (now : α)
    {i : Instruction α}
    (hfeasible : i.isFeasible = false) : ∃ cause, start w room now a i = .error cause := by
  have hmeasure : ∀ n : Number α, (n.hasScalar && true) = false → ∃ cause, n.toScalar = .error cause := by
    intro n hn
    cases hscalar : n.toScalar with
    | error cause => exact ⟨cause, rfl⟩
    | ok x => simp [Number.hasScalar_iff.mpr ⟨x, hscalar⟩] at hn
  cases hplan : Motion.plan? w.settings.confine a i with
  | some plan =>
    rw [start_plan hplan]
    cases plan with
    | error cause => exact ⟨cause, rfl⟩
    | ok p =>
      rw [(Motion.plan_isOk hsize hplan).mp ⟨p, rfl⟩] at hfeasible
      cases hfeasible
  | none =>
    cases i with
    | wait seconds =>
      obtain ⟨cause, hcause⟩ := hmeasure seconds hfeasible
      simp only [start, rest, hcause]
      cases descend room sleepSteps <;> exact ⟨_, rfl⟩
    | say message seconds =>
      obtain ⟨cause, hcause⟩ := hmeasure seconds hfeasible
      exact ⟨cause, by simp only [start, hcause]; rfl⟩
    | recolour _ | loop _ => cases hfeasible
    | move _ | turn _ | goto _ _ | resize _ => cases hplan

private theorem begin_of_get? {a : Actor α} (ha : w.store.get? a.id = some a) (room : Nat) (now : α)
    (i : Instruction α) : begin w room now a.id i =
      match start w room now a i with
      | .ok leaf => leaf
      | .error _ => .failed w [] := by
  unfold begin
  rw [Store.get_of_get? ha]
  cases i <;> rfl

private theorem begin_sound [Timeline α] [Gradual α] [Cubic α] (hactor : actor ∈ w.store.ids)
    (hsized : w.store.Sized) (hroom : frameSteps ≤ room) (hnow : IsTime now) {i : Instruction α}
    (hfeasible : i.isFeasible = true) : (begin w room now actor i).Sound now := by
  obtain ⟨a, ha⟩ := Option.isSome_iff_exists.mp (Store.isSome_get?.mpr hactor)
  obtain rfl := Store.get?_id ha
  obtain ⟨leaf, hstart, hsound⟩ := start_sound ha (hsized _ a ha) hroom hnow hfeasible
  rw [begin_of_get? ha, hstart]
  exact hsound

/-- An instruction for an actor on the stage fails exactly if a number of it is wanted as a scalar and has none. -/
theorem begin_fails [Timeline α] [Gradual α] [Cubic α] (hactor : actor ∈ w.store.ids)
    (hsized : w.store.Sized) (hroom : frameSteps ≤ room) (hnow : IsTime now) (i : Instruction α) :
    (begin w room now actor i).fails = !i.isFeasible := by
  cases hfeasible : i.isFeasible with
  | true =>
    have hsound := begin_sound hactor hsized hroom hnow hfeasible
    cases hleaf : begin w room now actor i with
    | failed w' out =>
      rw [hleaf] at hsound
      exact hsound.elim
    | _ => rfl
  | false =>
    obtain ⟨a, ha⟩ := Option.isSome_iff_exists.mp (Store.isSome_get?.mpr hactor)
    obtain rfl := Store.get?_id ha
    obtain ⟨cause, hstart⟩ := start_error (w := w) (hsized _ a ha) room now hfeasible
    rw [begin_of_get? ha, hstart]
    rfl

private theorem wake_sound [Timeline α] [Gradual α] [Cubic α] (hactor : actor ∈ w.store.ids)
    (hroom : frameSteps ≤ room) {pause : Pause α} (hbegun : pause.Begun now) :
    (wake w room now actor pause).Sound now := by
  cases pause with
  | rest => exact Calm.ofPlain (by simp)
  | bubble =>
    obtain ⟨a, ha⟩ := Option.isSome_iff_exists.mp (Store.isSome_get?.mpr hactor)
    have hdescend : descend room messageSteps = .ok () := if_pos (Nat.le_trans (by decide) hroom)
    simp only [wake, hdescend, Except.bind, World.write_of_get? ha]
    exact Calm.ofPlain (by simp [Signal.Plain])
  | frame m span =>
    obtain ⟨hstart, hpassed, hlasts⟩ := hbegun
    obtain ⟨w', out, hframe⟩ := Motion.frame_isOk hactor m hroom (Span.isShare_progress hpassed hlasts)
    have hcalm := Calm.ofEvents (Motion.frame_deed hframe).events
    simp only [wake, hframe]
    split
    · exact ⟨hcalm, hstart, hpassed, hlasts⟩
    · exact hcalm

end Leaf

/-! ## Resumptions -/

namespace World.Ready

variable {levels : Nat} {actor : Int} {w w' : World α} {out : List (Signal α)}

omit [Scalar α] in
theorem after (h : w.Ready levels actor) (hframe : SameFrame w w')
    (hsized : w.store.Sized → w'.store.Sized) : w'.Ready levels actor :=
  ⟨hframe.catalog.trans h.catalog, hframe.runRoom.symm ▸ h.room, hframe.ids.symm ▸ h.present,
    hsized h.sized⟩

private theorem doing (h : w.Ready levels actor) (hdoing : Doing actor w out w') : w'.Ready levels actor :=
  h.after hdoing.frame fun hsized => hdoing.updates.sized hsized

private theorem deed (h : w.Ready levels actor) (hdeed : Deed actor w out w') : w'.Ready levels actor :=
  h.doing (.ofConduct hdeed.conduct)

omit [Scalar α] in
theorem steps (h : w.Ready levels actor) {loops : Nat} (hloops : loops ≤ levels) :
    frameSteps ≤ w.roomBelow loops := by
  have hroom := h.room
  unfold roomBelow
  omega

end World.Ready

/-- After a sleep that ends its block, the program can still be run. -/
theorem Leaf.wake_ready {levels : Nat} {actor : Int} {w : World α} (hw : w.Ready levels actor) (room : Nat)
    (now : α) (pause : Pause α) :
    match wake w room now actor pause with
    | .finished w' _ => w'.Ready levels actor
    | _ => True := by
  split
  · rename_i w' out hwake
    exact hw.doing (.ofWake hwake)
  · trivial

omit [Scalar α] in
theorem World.passRoom_antitone (w : World α) {loops levels : Nat} (h : loops ≤ levels) :
    w.passRoom levels ≤ w.passRoom loops := by
  unfold passRoom
  split <;> split <;> omega

omit [Scalar α] in
theorem Program.Portable.widen {room more : Nat} {p : Program α} (h : p.Portable room) (hroom : room ≤ more) :
    p.Portable more :=
  ⟨Nat.le_trans h.copied (Nat.sub_le_sub_right hroom _), h.told⟩

variable [Timeline α]

/-- Where a run is suspended that can go on. -/
def Place.Sound (levels : Nat) (now : α) : Place α → Prop
  | .fresh => True
  | .asleep pause rest loops _ => pause.Begun now ∧
      ∃ n, n + loops.length = levels ∧ Program.isSound n rest = true ∧ LoopsSound n loops
  | .turn loops _ => ∃ n, n + loops.length = levels ∧ LoopsSound n loops

/-- An activity that does not fail, and after which the run can go on or is complete. -/
structure Activity.Sound (levels : Nat) (now : α) (a : Activity α) : Prop where
  calm : Calm a.out
  place : ∀ place, a.halt.place? = some place → place.Sound levels now
  done : ∀ outcome, a.halt = .done outcome → outcome = .completed

private theorem Activity.Sound.after {levels : Nat} {now : α} {a : Activity α} (h : a.Sound levels now)
    {out : List (Signal α)} (hout : Calm out) : (a.after out).Sound levels now :=
  ⟨hout.append h.calm, h.place, h.done⟩

namespace Moment

/-- Whether what reaching a block comes to does not fail. -/
def GoesOn (m : Moment α) (levels : Nat) : Activity α ⊕ World α × List (Signal α) → Prop
  | .inl a => a.Sound levels m.now
  | .inr (w, out) => Calm out ∧ w.Ready levels m.actor

omit [Timeline α] in
theorem calm_announced (m : Moment α) (b : Block α) {w : World α} {noted : List (Notice α)}
    {inputs : Fields α} (h : inputs? w b.typeId b.inputs = some (noted, .ok inputs)) :
    Calm (m.announced b noted inputs) := by
  intro actor hmem
  unfold inputs? at h
  split at h
  · obtain ⟨t, -, hresolve⟩ := Option.map_eq_some_iff.mp h
    have hnotices := BlockType.resolveInto_notices b.inputs t.inputs []
    rw [show BlockType.resolveInto b.inputs t.inputs [] = _ from hresolve] at hnotices
    simp only [announced, List.mem_append, List.mem_map, List.mem_singleton] at hmem
    rcases hmem with ⟨n, hn, heq⟩ | heq
    · obtain ⟨name, v, fallback, rfl⟩ := hnotices n hn
      cases heq
    · cases heq
  · cases h

private theorem afterLeaf_goesOn (m : Moment α) {levels n : Nat} {rest : Program α} {loops : List (Loop α)}
    (hlevels : n + loops.length = levels) (hloops : LoopsSound n loops)
    (hrest : Program.isSound n rest = true) {w : World α} (hw : w.Ready levels m.actor)
    {out : List (Signal α)} (hout : Calm out) {leaf : Leaf α} (hproper : leaf.Proper m.actor w)
    (h : leaf.Sound m.now) : GoesOn m levels (m.afterLeaf rest loops out leaf) := by
  cases leaf with
  | finished w' more => exact ⟨hout.append h, hw.deed hproper⟩
  | sleeping w' more seconds pause =>
    refine ⟨hout.append h.1, ?_, by simp⟩
    rintro place hplace
    cases hplace
    exact ⟨h.2, n, hlevels, hrest, hloops⟩
  | failed w' more => exact h.elim

variable [Everyday α] [Gradual α] [Cubic α]

private theorem dispatch_sequence_sound (m : Moment α) (hnow : IsTime m.now) (levels : Nat) :
    (∀ (b : Block α) n rest loops w, w.Ready levels m.actor → n + loops.length = levels →
      LoopsSound n loops → Program.isSound n rest = true → Block.isSound n b = true →
      GoesOn m levels (dispatch m rest loops w b)) ∧
    ∀ (p : Program α) n loops w, w.Ready levels m.actor → n + loops.length = levels →
      LoopsSound n loops → Program.isSound n p = true → (sequence m loops w p).Sound levels m.now := by
  apply Block.induction
  case block =>
    intro id typeId raw children ih n rest loops w hw hlevels hloops hrest hb
    obtain ⟨hserves, hchildren⟩ := Bool.and_eq_true_iff.mp hb
    have hroom := hw.steps (Nat.le.intro ((Nat.add_comm _ _).trans hlevels))
    -- What the block is run with is there, and so is the instruction.
    have hread : ∀ notices resolved, inputs? w typeId raw = some (notices, resolved) →
        ∃ inputs i, resolved = .ok inputs ∧ Instruction.ofInputs? typeId inputs = some i ∧
          i.isFeasible = true := by
      intro notices resolved h
      have hreading := reading_of_inputs? h
      rw [hw.catalog] at hreading
      exact Catalog.builtIn_reading hserves hreading
    have hreaches := dispatch_reaches m rest loops w ⟨id, typeId, raw, children⟩
    generalize dispatch m rest loops w ⟨id, typeId, raw, children⟩ = result at hreaches
    cases hreaches with
    | refused noted reason =>
      rcases reason with hlow | ⟨notices, cause, herror⟩
      · exact absurd (Nat.lt_of_lt_of_le hlow (by decide)) (Nat.not_lt.mpr hroom)
      · obtain ⟨inputs, i, heq, -⟩ := hread notices _ herror
        cases heq
    | skipped unknown => exact ⟨by simp [Calm], hw⟩
    | broken resolved none =>
      obtain ⟨inputs, i, heq, hi, -⟩ := hread _ _ resolved
      cases heq
      rw [none] at hi
      cases hi
    | idle resolved loop nothing => exact ⟨m.calm_announced _ resolved, hw⟩
    | enter resolved loop something =>
      rename_i noted inputs left
      -- One level of nesting is used up by the loop.
      cases n with
      | zero => exact absurd (List.isEmpty_iff.mp hchildren) something
      | succ n =>
        have hinner : LoopsSound n (⟨children, left, rest⟩ :: loops) := ⟨hchildren, hrest, hloops⟩
        have hlength : n + (⟨children, left, rest⟩ :: loops).length = levels := by
          rw [List.length_cons]
          omega
        exact (ih n _ w hw hlength hinner hchildren).after (m.calm_announced _ resolved)
    | leaf resolved instruction noLoop =>
      obtain ⟨inputs, i, heq, hi, hfeasible⟩ := hread _ _ resolved
      cases heq
      cases instruction.symm.trans hi
      exact m.afterLeaf_goesOn hlevels hloops hrest hw (m.calm_announced _ resolved)
        (Leaf.begin_proper _ _ _ _ _) (Leaf.begin_sound hw.present hw.sized hroom hnow hfeasible)
  case nil =>
    intro n loops w hw hlevels hloops hp
    rw [sequence]
    refine ⟨by simp [Calm], ?_, by simp⟩
    rintro place hplace
    cases hplace
    exact ⟨n, hlevels, hloops⟩
  case cons =>
    intro b rest hb hrest n loops w hw hlevels hloops hp
    obtain ⟨hfirst, hp⟩ := Bool.and_eq_true_iff.mp hp
    have hdispatch := hb n rest loops w hw hlevels hloops hp hfirst
    rw [sequence]
    split
    · rename_i activity h
      rw [h] at hdispatch
      exact hdispatch
    · rename_i w' out h
      rw [h] at hdispatch
      exact (hrest n loops w' hdispatch.2 hlevels hloops hp).after hdispatch.1

omit [Everyday α] [Gradual α] [Cubic α] in
theorem afterLeaf_fails_iff (m : Moment α) (rest : Program α) (loops : List (Loop α)) {out : List (Signal α)}
    (hout : Calm out) {leaf : Leaf α} (h : leaf.fails = false → leaf.Sound m.now) :
    (∃ a, m.afterLeaf rest loops out leaf = .inl a ∧ .notice (.programFailed m.actor) ∈ a.out) ↔
      leaf.fails = true := by
  cases leaf with
  | finished w' more => simp [afterLeaf, Leaf.fails]
  | failed w' more => simp [afterLeaf, Leaf.fails, Activity.after, Activity.fail]
  | sleeping w' more seconds pause =>
    have hcalm := hout.append (h rfl).1
    simpa [afterLeaf, Leaf.fails] using hcalm m.actor

/-- A block without others in it makes its program fail exactly if it cannot be run with its raw values. -/
theorem dispatch_fails_iff (m : Moment α) (hnow : IsTime m.now) {t : BlockType α}
    (ht : t ∈ Catalog.builtIn.types) (raw : Fields α) (id : String) (rest : Program α) {loops : List (Loop α)}
    {w : World α} {levels : Nat} (hw : w.Ready levels m.actor) (hloops : loops.length ≤ levels) :
    (∃ a, dispatch m rest loops w ⟨id, t.id, raw, []⟩ = .inl a ∧
      .notice (.programFailed m.actor) ∈ a.out) ↔ t.serves raw = false := by
  have hroom := hw.steps hloops
  have hreads := Catalog.builtIn_reads ht raw
  have hread : ∀ notices resolved, inputs? w t.id raw = some (notices, resolved) →
      (t.resolve raw).2 = resolved := by
    intro notices resolved h
    have hreading := reading_of_inputs? h
    rw [hw.catalog, hreads] at hreading
    exact Option.some.inj hreading
  have hreaches := dispatch_reaches m rest loops w ⟨id, t.id, raw, []⟩
  generalize dispatch m rest loops w ⟨id, t.id, raw, []⟩ = result at hreaches
  cases hreaches with
  | refused noted reason =>
    rcases reason with hlow | ⟨notices, cause, herror⟩
    · exact absurd (Nat.lt_of_lt_of_le hlow (by decide)) (Nat.not_lt.mpr hroom)
    · have hbad : t.serves raw = false := by
        rw [← Bool.not_eq_true, BlockType.builtIn_serves ht]
        rintro ⟨inputs, i, hok, -, -⟩
        cases hok.symm.trans (hread _ _ herror)
      simp [hbad, Activity.after, Activity.fail]
  | skipped unknown =>
    have hreading := reading_of_skipped unknown
    rw [hw.catalog, hreads] at hreading
    cases hreading
  | broken resolved none =>
    obtain ⟨i, hi, -⟩ := BlockType.builtIn_instruction ht (hread _ _ resolved)
    cases none.symm.trans hi
  | idle resolved loop nothing =>
    obtain ⟨i, hi, hfeasible⟩ := BlockType.builtIn_instruction ht (hread _ _ resolved)
    cases loop.symm.trans hi
    simp [← hfeasible, Instruction.isFeasible, Instruction.measures]
  | enter resolved loop something => exact absurd rfl something
  | leaf resolved instruction noLoop =>
    rename_i noted inputs i
    obtain ⟨j, hj, hfeasible⟩ := BlockType.builtIn_instruction ht (hread _ _ resolved)
    have hsame : j = i := Option.some.inj (hj.symm.trans instruction)
    rw [hsame] at hfeasible
    have hfails := Leaf.begin_fails hw.present hw.sized hroom hnow i
    rw [hfeasible] at hfails
    have hcalm := m.calm_announced ⟨id, t.id, raw, []⟩ resolved
    rw [m.afterLeaf_fails_iff rest loops hcalm, hfails, Bool.not_eq_true']
    intro hgoes
    rw [hfails, Bool.not_eq_false'] at hgoes
    exact Leaf.begin_sound hw.present hw.sized hroom hnow (hfeasible.trans hgoes)

private theorem step_sound (m : Moment α) (hnow : IsTime m.now) {levels : Nat} {w : World α}
    (hw : w.Ready levels m.actor) (hprograms : w.store.Within (Program.isSound levels · = true)) :
    (step m w).Sound levels m.now := by
  rcases step_cases m w with
    ⟨hnobody, -⟩ | ⟨a, -, -, hs⟩ | ⟨a, block, w₁, said, ha, hblock, written, hs⟩
  · exact absurd hw.present (Store.get?_eq_none.mp hnobody)
  · rw [hs]
    exact ⟨by simp [Calm], by simp [Halt.place?], by simp⟩
  · rw [hs]
    have hready : w₁.Ready levels m.actor :=
      hw.after (World.frame_write written) (World.write_updates (Patch.plain_stepIndex _) written).sized
    have hsound : Block.isSound levels block = true :=
      Program.isSound_iff.mp (hprograms a (Store.mem_of_get? ha)) block (List.mem_of_getElem? hblock)
    have hone : Program.isSound levels [block] = true := by
      rw [Program.isSound, hsound, Program.isSound]
      rfl
    have hwritten : Calm said := by
      obtain ⟨-, -, -, rfl⟩ := World.write_eq_ok.mp written
      exact Calm.ofEvents (by simp)
    exact ((dispatch_sequence_sound m hnow levels).2 [block] levels [] w₁ hready rfl trivial hone).after hwritten

private theorem next_sound (m : Moment α) (hnow : IsTime m.now) {levels n : Nat} {w : World α}
    (hw : w.Ready levels m.actor) (hprograms : w.store.Within (Program.isSound levels · = true))
    {loops : List (Loop α)} (hlevels : n + loops.length = levels) (hloops : LoopsSound n loops) :
    (next m w loops).Sound levels m.now := by
  have hsequence := (dispatch_sequence_sound m hnow levels).2
  cases loops with
  | nil => exact step_sound { m with index := m.index + 1 } hnow hw hprograms
  | cons l loops =>
    obtain ⟨hbody, hafter, houter⟩ := hloops
    rw [List.length_cons] at hlevels
    cases hleft : l.left with
    | zero =>
      simp only [next, hleft]
      exact hsequence l.after (n + 1) loops w hw (by omega) houter hafter
    | succ left =>
      simp only [next, hleft]
      exact hsequence l.body n _ w hw (by rw [List.length_cons]; omega) ⟨hbody, hafter, houter⟩ hbody

end Moment

namespace Place

theorem Sound.later {levels : Nat} {now later : α} {place : Place α} (h : place.Sound levels now)
    (hnow : IsTime now) (hlater : IsTime later) (hle : Scalar.lt later now = false) :
    place.Sound levels later := by
  cases place with
  | fresh => trivial
  | turn loops index => exact h
  | asleep pause rest loops index =>
    refine ⟨?_, h.2⟩
    cases pause with
    | frame m span =>
      obtain ⟨hstart, hbegun, hlasts⟩ := h.1
      exact ⟨hstart, le_trans hstart hnow hlater hbegun hle, hlasts⟩
    | rest | bubble => trivial

variable [Everyday α] [Gradual α] [Cubic α] {now : α} {levels : Nat} {actor : Int} {w : World α}

/-- A run that is resumed does not fail where all programs on the stage are sound and can be handed over. -/
theorem resume_sound (hnow : IsTime now) (hw : w.Ready levels actor) (hasc : w.store.Ascending)
    (hprograms : w.store.Within fun p => Program.isSound levels p = true ∧ p.Portable (w.passRoom levels))
    {place : Place α} (hplace : place.Sound levels now) :
    (place.resume now actor w).Sound levels now := by
  have hsound : w.store.Within (Program.isSound levels · = true) := fun a ha => (hprograms a ha).1
  cases place with
  | fresh => exact Moment.step_sound ⟨now, actor, 0⟩ hnow hw hsound
  | asleep pause rest loops index =>
    obtain ⟨hbegun, n, hlevels, hrest, hloops⟩ := hplace
    have hroom := hw.steps (Nat.le.intro ((Nat.add_comm _ _).trans hlevels))
    have hwake := Leaf.wake_sound hw.present hroom hbegun
    have hready := Leaf.wake_ready hw (w.roomBelow loops.length) now pause
    simp only [resume]
    cases hleaf : Leaf.wake w (w.roomBelow loops.length) now actor pause with
    | finished w' out =>
      rw [hleaf] at hwake hready
      exact ((Moment.dispatch_sequence_sound ⟨now, actor, index⟩ hnow levels).2 rest n loops w' hready
        hlevels hloops hrest).after hwake
    | sleeping w' out seconds pause' =>
      rw [hleaf] at hwake
      refine ⟨hwake.1, ?_, by simp⟩
      rintro place ⟨⟩
      exact ⟨hwake.2, n, hlevels, hrest, hloops⟩
    | failed w' out =>
      rw [hleaf] at hwake
      exact hwake.elim
  | turn loops index =>
    obtain ⟨n, hlevels, hloops⟩ := hplace
    -- A program that can be handed over from inside of all levels can be from inside of these loops.
    have hwide : w.passRoom levels ≤ w.passRoom loops.length :=
      w.passRoom_antitone (Nat.le.intro ((Nat.add_comm _ _).trans hlevels))
    have hhanded : w.store.Within (·.Portable (w.passRoom loops.length)) :=
      fun a ha => (hprograms a ha).2.widen hwide
    have hgone := World.collide_isOk hasc hw.sized hhanded
    have hdeals := World.collide_deals hsound (w.passRoom loops.length)
    have hready := hw.after (w.frame_collide _) hdeals.sized
    have hpass : Calm (α := α) [.pass actor] := by simp [Calm]
    have hcalm := hpass.append (Calm.ofPlain (w.collide_plain (w.passRoom loops.length)))
    rw [resume_turn]
    refine Activity.Sound.after ?_ hcalm
    unfold afterPass
    split
    · rename_i cause hbroken
      rw [hbroken] at hgone
      cases hgone
    · exact Moment.next_sound ⟨now, actor, index⟩ hnow hready (hdeals.within hsound) hlevels hloops

end Place

end SpriteStage
