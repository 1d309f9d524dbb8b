import SpriteStage.Proofs.Costs
import SpriteStage.Proofs.Outcome
import SpriteStage.Proofs.Updates
/-!
# The bill of a run

What a run pays for can be read off what it tells. So whoever listens knows the actor as it is
when a block starts, apart from what passes, and can put the cost of the block on the bill.
-/
namespace SpriteStage

open Exact
open Store (Updates)

variable {α : Type}

/-! ## Listening -/

namespace Actor

/-- What is known of an actor after a signal. The points of its trail are left out. -/
def hear (a : Actor α) : Signal α → Actor α
  | .event ⟨id, .wrote p _⟩ => if id = a.id then p.apply a else a
  | _ => a

def heard (a : Actor α) (out : List (Signal α)) : Actor α := out.foldl hear a

@[simp] theorem hear_id (a : Actor α) (x : Signal α) : (a.hear x).id = a.id := by
  unfold hear
  split
  · split <;> rfl
  · rfl

@[simp] theorem heard_id (a : Actor α) (out : List (Signal α)) : (a.heard out).id = a.id := by
  induction out generalizing a with
  | nil => rfl
  | cons x out ih => exact (ih _).trans (hear_id a x)

theorem heard_append (a : Actor α) (out more : List (Signal α)) : a.heard (out ++ more) = (a.heard out).heard more :=
  List.foldl_append

private theorem heard_silent (a : Actor α) {out : List (Signal α)} (h : ∀ x ∈ out, x.event? = none) :
    a.heard out = a := by
  induction out with
  | nil => rfl
  | cons x out ih =>
    obtain ⟨hx, hrest⟩ := List.forall_mem_cons.mp h
    have hsilent : a.hear x = a := by
      cases x with
      | event e => cases hx
      | _ => rfl
    rw [heard, List.foldl_cons, hsilent]
    exact ih hrest

private theorem lasting_apply (p : Patch α) {a b : Actor α} (h : a.lasting = b.lasting) :
    (p.apply a).lasting = (p.apply b).lasting := by
  have hlasting : ∀ c : Actor α, (p.apply c).lasting = (p.apply c.lasting).lasting := fun _ => rfl
  rw [hlasting a, hlasting b, h]

end Actor

section Listening

variable {st st₁ st' : Store α} {a b c : Actor α}

private theorem Store.heard_replace (hb : st.get? a.id = some b) (hknown : b.lasting = a.lasting) {id : Int}
    (hc : st.get? id = some c) {p : Patch α} (hst : st.replace (p.apply c) = st₁) (q : Patch α)
    (hsame : ∀ x : Actor α, (p.apply x).lasting = (q.apply x).lasting) (point : Option (Point α)) :
    ∃ b', st₁.get? a.id = some b' ∧ b'.lasting = (a.hear (.event ⟨id, .wrote q point⟩)).lasting := by
  subst hst
  have hid : c.id = id := get?_id hc
  rw [get?_replace, Patch.apply_id, hid, Actor.hear]
  by_cases hown : id = a.id
  · subst hown
    cases hb.symm.trans hc
    rw [if_pos rfl, if_pos rfl, hc]
    exact ⟨_, rfl, (hsame _).trans (Actor.lasting_apply q hknown)⟩
  · rw [if_neg (Ne.symm hown), if_neg hown]
    exact ⟨b, hb, hknown⟩

/-- Whoever listens knows what lasts of an actor. -/
theorem Store.Updates.heard [Scalar α] {s : Settings α} {out : List (Signal α)} (h : Updates s st out st')
    (hb : st.get? a.id = some b) (hknown : b.lasting = a.lasting) :
    ∃ b', st'.get? a.id = some b' ∧ b'.lasting = (a.heard out).lasting := by
  induction h generalizing a b with
  | nil st => exact ⟨b, hb, hknown⟩
  | @tell _ _ out x aside _ ih =>
    rw [← List.singleton_append, Actor.heard_append, Actor.heard_silent a (by simpa using aside)]
    exact ih hb hknown
  | write plain written _ ih =>
    obtain ⟨c, hc, hdone⟩ := bind_eq_ok written
    obtain ⟨hst, rfl⟩ := Prod.mk.inj (Except.ok.inj hdone)
    obtain ⟨b', hb', hknown'⟩ := heard_replace hb hknown (get_eq_ok.mp hc) hst _ (fun _ => rfl) none
    rw [Actor.heard, List.foldl_cons, ← Actor.hear_id a]
    exact ih (by rwa [Actor.hear_id]) hknown'
  | move point glided _ ih =>
    obtain ⟨c, hc, hdone⟩ := bind_eq_ok glided
    obtain ⟨hst, rfl⟩ := Prod.mk.inj (Except.ok.inj hdone)
    -- The event names all that is written but the trail, which passes.
    obtain ⟨b', hb', hknown'⟩ := heard_replace hb hknown (get_eq_ok.mp hc) hst
      { ({ position := some point } : Patch α).normalise s with trail := none } (fun _ => rfl) (some point)
    rw [Actor.heard, List.foldl_cons, ← Actor.hear_id a]
    exact ih (by rwa [Actor.hear_id]) hknown'

end Listening

/-! ## Charges -/

/-- What is charged for: a block, the values that it runs with, and the actor as it is when the block starts. -/
structure Charge (α : Type) where
  block : Block α
  inputs : Fields α
  actor : Actor α

/-- The charge for a signal. Only blocks that are no loops are charged for. -/
def Signal.charge? (a : Actor α) : Signal α → Option (Charge α)
  | .dispatched id b (some inputs) => if id = a.id ∧ b.typeId ≠ "repeat" then some ⟨b, inputs, a⟩ else none
  | _ => none

/-- The charges for what a run tells about its actor. -/
def charges : Actor α → List (Signal α) → List (Charge α)
  | _, [] => []
  | a, x :: out => (x.charge? a).toList ++ charges (a.hear x) out

namespace Charge

def read (c : Charge α) : Block α × Except Error (Fields α) := (c.block, .ok c.inputs)

def instruction? [Scalar α] (c : Charge α) : Option (Instruction α) :=
  Instruction.ofInputs? c.block.typeId c.inputs

def cost [Scalar α] [Exact α] (s : Settings α) (c : Charge α) : ℚ :=
  c.instruction?.elim 0 (·.cost s c.actor)

end Charge

section Charges

variable (a : Actor α) (out more : List (Signal α))

theorem charges_append : charges a (out ++ more) = charges a out ++ charges (a.heard out) more := by
  induction out generalizing a with
  | nil => rfl
  | cons x out ih =>
    rw [List.cons_append, charges, ih, charges, List.append_assoc]
    rfl

/-- The blocks that are charged for are those that leave a mark. -/
theorem charges_read : (charges a out).map Charge.read = (marks a.id out).filterMap Mark.block? := by
  induction out generalizing a with
  | nil => rfl
  | cons x out ih =>
    have hone : (x.charge? a).toList.map Charge.read = (marks a.id [x]).filterMap Mark.block? := by
      cases x with
      | dispatched id b inputs =>
        cases inputs with
        | none => rfl
        | some inputs =>
          by_cases h : id = a.id ∧ b.typeId ≠ "repeat"
          · simp [Signal.charge?, marks, Signal.mark?, h, Mark.block?, Charge.read]
          · simp [Signal.charge?, marks, Signal.mark?, h]
      | pass id => by_cases h : id = a.id <;> simp [Signal.charge?, marks, Signal.mark?, h, Mark.block?]
      | event _ | notice _ => rfl
    rw [charges, List.map_append, ih, Actor.hear_id, hone, ← List.filterMap_append, ← marks_append,
      List.singleton_append]

variable {out}

private theorem charges_unmarked (h : (marks a.id out).filterMap Mark.block? = []) : charges a out = [] := by
  rw [← charges_read] at h
  exact List.map_eq_nil_iff.mp h

end Charges

variable [Scalar α] [Exact α]

namespace Settings

def bill (s : Settings α) (a : Actor α) (out : List (Signal α)) : ℚ := ((charges a out).map (Charge.cost s)).sum

variable {s : Settings α} {a : Actor α} {out : List (Signal α)}

theorem bill_append (s : Settings α) (a : Actor α) (out more : List (Signal α)) :
    s.bill a (out ++ more) = s.bill a out + s.bill (a.heard out) more := by
  rw [bill, charges_append, List.map_append, List.sum_append]
  rfl

private theorem bill_unmarked (h : marks a.id out = []) : s.bill a out = 0 := by
  rw [bill, charges_unmarked a (by rw [h]; rfl)]
  rfl

private theorem bill_events (h : ∀ x ∈ out, ∃ e, x = .event e) : s.bill a out = 0 := bill_unmarked (marks_events h)

end Settings

/-- On a stage with the types of every stage, seconds that are asked for are not less than none. -/
theorem Charge.cost_of_seconds [Exacting α] {s : Settings α} {c : Charge α} {i : Instruction α} {seconds : Number α}
    (hread : Catalog.builtIn.read c.block = c.read) (hi : c.instruction? = some i)
    (hseconds : i.seconds? = some seconds) : c.cost s = seconds.amount / s.pace := by
  have hreading : Catalog.builtIn.reading c.block.typeId c.block.inputs = some (.ok c.inputs) := by
    rw [Catalog.read, read, Prod.mk.injEq] at hread
    cases hinputs : Catalog.builtIn.reading c.block.typeId c.block.inputs with
    | none =>
      rw [hinputs] at hread
      cases hread.2
    | some inputs =>
      rw [hinputs] at hread
      exact congrArg some hread.2
  rw [cost, hi, Option.elim_some, Instruction.cost_of_seconds hseconds, Settings.lasting,
    max_eq_right (Catalog.builtIn_seconds hreading hi hseconds)]

/-! ## Resumptions -/

/-- A run that sleeps until some time, or waits for a turn then, and whose block will be through at another. Only a
run that sleeps is inside of a block. -/
def Place.Ends (interval wake till : ℚ) : Place α → Prop
  | .asleep pause _ _ _ => pause.Ends interval wake till
  | .fresh | .turn _ _ => wake = till

/-- Where the block that a run has come to will be through at some time. Nothing is said of a run that is broken
off. -/
def Halt.Ends (interval : ℚ) (now : α) (till : ℚ) : Halt α → Prop
  | .sleep seconds place => place.Ends interval (value (wakeTime now seconds)) till
  | .pass place => place.Ends interval (value now) till
  | .done .completed => value now = till
  | .done _ => True

/-- An activity that goes on for as long as what it puts on the bill costs, from some time on. -/
def Activity.Pays (s : Settings α) (a : Actor α) (now : α) (since : ℚ) (x : Activity α) : Prop :=
  x.halt.Ends (value s.frameInterval) now (since + s.bill a x.out)

/-- A world in which an actor is as it is known. -/
def World.Knows (w : World α) (a : Actor α) : Prop := w.Lasts a.id (· = a.lasting)

omit [Scalar α] [Exact α] in
theorem World.Knows.isSome {w : World α} {a : Actor α} (h : w.Knows a) : (w.store.get? a.id).isSome := by
  obtain ⟨b, hb, -⟩ := h
  rw [hb, Option.isSome_some]

omit [Exact α] in
theorem World.Knows.updates {w w' : World α} {a : Actor α} {out : List (Signal α)} (h : w.Knows a)
    (hupdates : Updates w.settings w.store out w'.store) : w'.Knows (a.heard out) := by
  obtain ⟨b, hb, hknown⟩ := h
  obtain ⟨b', hb', hknown'⟩ := hupdates.heard hb hknown
  exact ⟨b', by rwa [Actor.heard_id], hknown'⟩

namespace Activity

variable {s : Settings α} {a : Actor α} {now : α} {since : ℚ} {x : Activity α}

private theorem Pays.after {out : List (Signal α)} (h : x.Pays s (a.heard out) now (since + s.bill a out)) :
    (x.after out).Pays s a now since := by
  rw [Pays, add_assoc, ← Settings.bill_append] at h
  exact h

private theorem fail_pays (w : World α) (actor : Int) (out : List (Signal α)) :
    ((fail w actor).after out).Pays s a now since := trivial

end Activity

namespace Moment

variable {m : Moment α} {s : Settings α} {a : Actor α}

omit [Scalar α] [Exact α] in
theorem heard_announced (a : Actor α) (m : Moment α) (b : Block α) (noted : List (Notice α)) (inputs : Fields α) :
    a.heard (m.announced b noted inputs) = a := by
  apply a.heard_silent
  simp only [announced, List.mem_append, List.mem_map, List.mem_singleton]
  rintro x (⟨notice, -, rfl⟩ | rfl) <;> rfl

private theorem bill_announced (ha : a.id = m.actor) (b : Block α) (noted : List (Notice α)) {inputs : Fields α}
    {i : Instruction α} (hi : Instruction.ofInputs? b.typeId inputs = some i) :
    s.bill a (m.announced b noted inputs) = i.cost s a := by
  have hnoted : s.bill a (noted.map .notice) = 0 := Settings.bill_unmarked (marks_noted noted)
  rw [announced, Settings.bill_append, hnoted, zero_add, a.heard_silent (by simp [Signal.event?])]
  by_cases hloop : b.typeId = "repeat"
  · rw [hloop] at hi
    obtain ⟨n, rfl⟩ := Instruction.ofInputs?_repeat hi
    exact Settings.bill_unmarked (by simp [marks, Signal.mark?, hloop])
  · simp [Settings.bill, charges, Signal.charge?, ha, hloop, Charge.cost, Charge.instruction?, hi]

/-- What reaching a block comes to: an activity that takes the time that is charged for, or a block that costs
nothing. -/
def PaidFor (m : Moment α) (s : Settings α) (a : Actor α) : Activity α ⊕ World α × List (Signal α) → Prop
  | .inl x => x.Pays s a m.now (value m.now)
  | .inr (_, out) => s.bill a out = 0

private theorem afterLeaf_paidFor (rest : Program α) (loops : List (Loop α)) {w : World α}
    {out : List (Signal α)} {leaf : Leaf α} (hproper : leaf.Proper m.actor w)
    (hends : leaf.Ends (value s.frameInterval) m.now (value m.now + s.bill a out)) :
    m.PaidFor s a (m.afterLeaf rest loops out leaf) := by
  have hquiet : ∀ {more : List (Signal α)}, (∀ x ∈ more, ∃ e, x = .event e) →
      s.bill a (out ++ more) = s.bill a out := by
    intro more hmore
    rw [Settings.bill_append, Settings.bill_events hmore, add_zero]
  cases leaf with
  | finished w' more =>
    have hnow : value m.now = value m.now + s.bill a out := hends
    change s.bill a (out ++ more) = 0
    rw [hquiet hproper.events]
    linarith
  | sleeping w' more seconds pause =>
    have hevents : ∀ x ∈ more, ∃ e, x = .event e := by
      cases pause with
      | rest => exact hproper.events
      | frame motion span => exact hproper.events
      | bubble =>
        obtain ⟨text, shown⟩ := hproper
        obtain ⟨-, -, -, rfl⟩ := World.write_eq_ok.mp shown
        simp
    change Pause.Ends _ _ (value m.now + s.bill a (out ++ more)) pause
    rw [hquiet hevents]
    exact hends
  | failed w' more => exact Activity.fail_pays _ _ _

private theorem dispatch_sequence_pays [Exacting α] (m : Moment α) (hinterval : 0 < value s.frameInterval) :
    (∀ (b : Block α) rest loops (w : World α) (a : Actor α), w.settings = s → a.id = m.actor → w.Knows a →
      m.PaidFor s a (dispatch m rest loops w b)) ∧
    ∀ (p : Program α) loops (w : World α) (a : Actor α), w.settings = s → a.id = m.actor → w.Knows a →
      (sequence m loops w p).Pays s a m.now (value m.now) := by
  apply Block.induction
  case block =>
    intro id typeId raw children ih rest loops w a hs ha hknows
    have hreaches := dispatch_reaches m rest loops w ⟨id, typeId, raw, children⟩
    generalize dispatch m rest loops w ⟨id, typeId, raw, children⟩ = result at hreaches
    cases hreaches with
    | refused noted => exact Activity.fail_pays _ _ _
    | skipped unknown => exact Settings.bill_unmarked rfl
    | broken resolved none => exact Activity.fail_pays _ _ _
    | idle resolved loop nothing => exact bill_announced ha _ _ loop
    | enter resolved loop something =>
      rename_i noted inputs left
      apply Activity.Pays.after
      rw [heard_announced, bill_announced ha _ _ loop, Instruction.cost, add_zero]
      exact ih _ w a hs ha hknows
    | leaf resolved instruction noLoop =>
      rename_i noted inputs i
      obtain ⟨b, hb, hlasting⟩ := hknows
      subst hs
      apply afterLeaf_paidFor rest loops (Leaf.begin_proper w _ m.now m.actor i)
      rw [bill_announced ha _ _ instruction, ← i.cost_lasting, ← hlasting, i.cost_lasting]
      exact Leaf.begin_ends hinterval (ha ▸ hb) _ m.now noLoop
  case nil =>
    intro loops w a hs ha hknows
    rw [sequence, Activity.Pays, Halt.Ends]
    exact (add_zero _).symm
  case cons =>
    intro b rest hb hrest loops w a hs ha hknows
    have hpaid := hb rest loops w a hs ha hknows
    have hproper := (dispatch_sequence_proper m).1 b rest loops w
    rw [sequence]
    split
    · rename_i activity h
      rw [h] at hpaid
      exact hpaid
    · -- What was passed cost nothing, so the rest of the sequence starts at the same time.
      rename_i w' out h
      rw [h] at hpaid hproper
      have hconduct : Conduct m.actor w out w' := hproper
      apply Activity.Pays.after
      rw [show s.bill a out = 0 from hpaid, add_zero]
      exact hrest loops w' (a.heard out) (hconduct.frame.settings.trans hs) ((a.heard_id out).trans ha)
        (hknows.updates (Doing.ofConduct hconduct).updates)

private theorem sequence_pays [Exacting α] (m : Moment α) (hinterval : 0 < value s.frameInterval) (p : Program α)
    (loops : List (Loop α)) {w : World α} (hs : w.settings = s) (ha : a.id = m.actor) (hknows : w.Knows a) :
    (sequence m loops w p).Pays s a m.now (value m.now) :=
  (dispatch_sequence_pays m hinterval).2 p loops w a hs ha hknows

private theorem step_pays [Exacting α] (m : Moment α) (hinterval : 0 < value s.frameInterval) {w : World α}
    (hs : w.settings = s) (ha : a.id = m.actor) (hknows : w.Knows a) :
    (step m w).Pays s a m.now (value m.now) := by
  rcases step_cases m w with ⟨-, hstep⟩ | ⟨_, -, -, hstep⟩ | ⟨_, block, w₁, said, -, -, written, hstep⟩
  · rw [hstep]
    trivial
  · rw [hstep]
    exact (add_zero _).symm
  · have hframe := World.frame_write written
    have hupdates := World.write_updates (Patch.plain_stepIndex _) written
    have hsaid : s.bill a said = 0 := by
      obtain ⟨-, -, -, rfl⟩ := World.write_eq_ok.mp written
      exact Settings.bill_events (by simp)
    rw [hstep]
    apply Activity.Pays.after
    rw [hsaid, add_zero]
    exact sequence_pays m hinterval [block] [] (hframe.settings.trans hs) ((a.heard_id said).trans ha)
      (hknows.updates hupdates)

private theorem next_pays [Exacting α] (m : Moment α) (hinterval : 0 < value s.frameInterval) {w : World α}
    (hs : w.settings = s) (ha : a.id = m.actor) (hknows : w.Knows a) (loops : List (Loop α)) :
    (next m w loops).Pays s a m.now (value m.now) := by
  cases loops with
  | nil => exact step_pays { m with index := m.index + 1 } hinterval hs ha hknows
  | cons l loops =>
    simp only [next]
    split
    · exact sequence_pays m hinterval l.after loops hs ha hknows
    · exact sequence_pays m hinterval l.body _ hs ha hknows

end Moment

namespace Place

variable {s : Settings α} {a : Actor α} {w : World α} {now : α} {till : ℚ}

private theorem resume_asleep_pays [Exacting α] (hinterval : 0 < value s.frameInterval) (hs : w.settings = s)
    (hknows : w.Knows a) {pause : Pause α} (rest : Program α) (loops : List (Loop α)) (index : Nat)
    (h : pause.Ends (value s.frameInterval) (value now) till) :
    ((asleep pause rest loops index).resume now a.id w).Pays s a now till := by
  have hsilent : ∀ {out : List (Signal α)}, (∀ x ∈ out, ∃ e, x = .event e) → till + s.bill a out = till := by
    intro out hevents
    rw [Settings.bill_events hevents, add_zero]
  have hrest : ∀ {w₁ : World α} {out : List (Signal α)}, Doing a.id w out w₁ → (∀ x ∈ out, ∃ e, x = .event e) →
      value now = till → ((Moment.sequence ⟨now, a.id, index⟩ loops w₁ rest).after out).Pays s a now till := by
    intro w₁ out hdoing hevents hnow
    apply Activity.Pays.after
    rw [hsilent hevents, ← hnow]
    exact Moment.sequence_pays ⟨now, a.id, index⟩ hinterval rest loops (hdoing.frame.settings.trans hs)
      (a.heard_id out) (hknows.updates hdoing.updates)
  subst hs
  have hends := Leaf.wake_ends hinterval (w.roomBelow loops.length) a.id h
  simp only [Place.resume]
  rcases Leaf.wake_cases w (w.roomBelow loops.length) now a.id pause with
    ⟨rfl, w₁, out, cleared, hwake⟩ | ⟨rfl, hwake⟩ | ⟨-, hproper, hquiet⟩
  · rw [hwake] at hends ⊢
    refine hrest (.ofWrite (Patch.plain_message (by simp)) rfl cleared) ?_ hends
    obtain ⟨-, -, -, rfl⟩ := World.write_eq_ok.mp cleared
    simp
  · rw [hwake]
    exact Activity.fail_pays _ _ _
  · generalize Leaf.wake w (w.roomBelow loops.length) now a.id pause = leaf at hproper hquiet hends
    cases leaf with
    | finished w₁ out => exact hrest (.ofConduct hproper.conduct) hproper.events hends
    | sleeping w₁ out seconds pause' =>
      have hdeed : Deed a.id w out w₁ := by
        cases pause' with
        | bubble => exact absurd rfl (hquiet w₁ out seconds)
        | rest | frame _ _ => exact hproper
      dsimp only
      rw [Activity.Pays, hsilent hdeed.events]
      exact hends
    | failed w₁ out => exact Activity.fail_pays _ _ _

/-- A resumption goes on for as long as what it puts on the bill costs, from when the block is through in which the
run sleeps. The collision pass of a turn takes no time. -/
theorem resume_pays [Exacting α] (hinterval : 0 < value s.frameInterval) (hs : w.settings = s) (hknows : w.Knows a)
    {place : Place α} (hpasses : place.PassesBy w) (h : place.Ends (value s.frameInterval) (value now) till) :
    (place.resume now a.id w).Pays s a now till := by
  cases place with
  | fresh =>
    obtain rfl : value now = till := h
    exact Moment.step_pays ⟨now, a.id, 0⟩ hinterval hs rfl hknows
  | turn loops index =>
    obtain rfl : value now = till := h
    obtain ⟨hstore, hsilent⟩ := Collision.passWith_nil hpasses
    have hthere : (w.collide (w.passRoom loops.length)).1.Knows a := by
      obtain ⟨b, hb, hknown⟩ := hknows
      exact ⟨b, (congrArg (Store.get? · a.id) hstore).trans hb, hknown⟩
    rw [resume_turn, show (w.collide (w.passRoom loops.length)).2.1 = [] from hsilent, afterPass,
      show (w.collide (w.passRoom loops.length)).2.2 = .ok [] from hpasses]
    apply Activity.Pays.after
    rw [show s.bill a [.pass a.id] = 0 from rfl, add_zero]
    have hsettings : (w.collide (w.passRoom loops.length)).1.settings = s := hs
    exact Moment.next_pays ⟨now, a.id, index⟩ hinterval hsettings rfl hthere loops
  | asleep pause rest loops index =>
    exact resume_asleep_pays hinterval hs hknows rest loops index h

end Place

end SpriteStage
