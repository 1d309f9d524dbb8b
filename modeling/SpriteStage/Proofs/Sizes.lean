import SpriteStage.Proofs.Completion
import SpriteStage.Proofs.Tracks
/-!
# Sizes

The size of an actor changes only in the frames of its own run. So what has to be kept in mind of
a run that sleeps is which change it is in the middle of: as long as that one stays between the
bounds, and time does not go back, so does the size.
-/
namespace SpriteStage

variable {α : Type}

def Event.size? (e : Event α) : Option (Value α) :=
  match e.change with
  | .added a => some a.size
  | .deleted => none
  | .wrote p _ => p.size

private theorem Signal.mem_events {out : List (Signal α)} {e : Event α} : e ∈ events out ↔ .event e ∈ out := by
  constructor
  · intro h
    obtain ⟨x, hx, he⟩ := List.mem_filterMap.mp h
    cases x with
    | event e' => exact Option.some.inj he ▸ hx
    | _ => cases he
  · exact fun h => List.mem_filterMap.mpr ⟨_, h, rfl⟩

variable [Scalar α] [Exact α]

open Exact

/-- Whether a size lies between the bounds of sizes. -/
def Exact.Moderate (x : α) : Prop := 20 ≤ value x ∧ value x ≤ 100

def Value.Moderate (v : Value α) : Prop := ∃ x, v = .real x ∧ Exact.Moderate x

/-- Whether the sizes that are told of an actor lie between the bounds. -/
def SizesModerate (actor : Int) (out : List (Signal α)) : Prop :=
  ∀ e, .event e ∈ out → e.actor = actor → ∀ v, e.size? = some v → v.Moderate

def Store.Moderate (actor : Int) (st : Store α) : Prop := ∀ a, st.get? actor = some a → a.size.Moderate

namespace SizesModerate

variable {actor : Int} {out more : List (Signal α)}

private theorem append (h : SizesModerate actor out) (h' : SizesModerate actor more) :
    SizesModerate actor (out ++ more) := by
  intro e he
  rcases List.mem_append.mp he with he | he
  · exact h e he
  · exact h' e he

private theorem ofSizeless (h : ∀ e, .event e ∈ out → e.size? = none) : SizesModerate actor out := by
  intro e he _ v hv
  rw [h e he] at hv
  cases hv

private theorem ofOther {other : Int} (hne : other ≠ actor) (h : ∀ x ∈ out, x.Of other) :
    SizesModerate actor out :=
  fun _ he heq => absurd ((h _ he).symm.trans heq) hne

private theorem announced (m : Moment α) (b : Block α) (noted : List (Notice α)) (inputs : Fields α) :
    SizesModerate actor (m.announced b noted inputs) :=
  ofSizeless fun e he => by simp [Moment.announced] at he

private theorem fail (w : World α) (other : Int) : SizesModerate actor (Activity.fail w other).out :=
  ofSizeless fun e he => by simp [Activity.fail] at he

private theorem notice (n : Notice α) : SizesModerate actor [.notice n] :=
  ofSizeless fun e he => by simp at he

private theorem ofWrite {w w' : World α} {other : Int} {p : Patch α} (hp : p.size = none)
    (h : w.write other p = .ok (w', out)) :
    SizesModerate actor out := by
  obtain ⟨-, -, -, rfl⟩ := World.write_eq_ok.mp h
  refine ofSizeless fun e he => ?_
  cases List.mem_singleton.mp he
  exact hp

end SizesModerate

/-! ## What is told and what is stored -/

namespace Store

variable {s : Settings α} {actor : Int} {st st' : Store α} {out : List (Signal α)}

private theorem Moderate.replace (h : st.Moderate actor) {b : Actor α} (hb : b.id = actor → b.size.Moderate) :
    (st.replace b).Moderate actor := by
  intro a ha
  rw [get?_replace] at ha
  split at ha
  · rename_i hid
    obtain ⟨-, -, rfl⟩ := Option.map_eq_some_iff.mp ha
    exact hb hid.symm
  · exact h a ha

private theorem Moderate.keep (h : st.Moderate actor) {id : Int} {a b : Actor α} (ha : st.get? id = some a)
    (hid : b.id = a.id) (hsize : b.size = a.size) : (st.replace b).Moderate actor := by
  refine h.replace fun hb => ?_
  rw [hsize]
  have hfound : id = actor := (get?_id ha).symm.trans (hid.symm.trans hb)
  exact h a (hfound ▸ ha)

private theorem Updates.moderate (h : Updates s st out st') (htold : SizesModerate actor out)
    (hst : st.Moderate actor) :
    st'.Moderate actor := by
  induction h with
  | nil st => exact hst
  | tell x aside _ ih => exact ih (fun e he => htold e (List.mem_cons_of_mem _ he)) hst
  | @write st st₁ st' out id p e plain written _ ih =>
    obtain ⟨a, ha, hdone⟩ := bind_eq_ok written
    cases hdone
    have hfound := get_eq_ok.mp ha
    refine ih (fun e he => htold e (List.mem_cons_of_mem _ he)) ?_
    cases hp : p.size with
    | none => exact hst.keep hfound rfl (by simp [Patch.apply, Patch.normalise, hp])
    | some v =>
      refine hst.replace fun hid => ?_
      have hmoderate := htold _ List.mem_cons_self ((get?_id hfound).symm.trans hid) v hp
      simpa [Patch.apply, Patch.normalise, hp] using hmoderate
  | move point glided _ ih =>
    obtain ⟨a, ha, hdone⟩ := bind_eq_ok glided
    cases hdone
    exact ih (fun e he => htold e (List.mem_cons_of_mem _ he)) (hst.keep (get_eq_ok.mp ha) rfl rfl)

omit [Scalar α] [Exact α] in
theorem Deals.sizeless {pool : Program α → Prop} (h : Deals pool st out st') (e : Event α) (he : .event e ∈ out) :
    e.size? = none := by
  obtain ⟨p, hchange⟩ := h.events he
  simp [Event.size?, hchange]

private theorem Deals.moderate {pool : Program α → Prop} (h : Deals pool st out st') (hst : st.Moderate actor) :
    st'.Moderate actor := by
  induction h with
  | nil st => exact hst
  | notice n _ ih => exact ih hst
  | told found _ _ _ ih => exact ih (hst.keep found rfl rfl)
  | untold found _ _ _ ih => exact ih (hst.keep found rfl rfl)

private theorem Played.moderate {through : Prop} (h : Played s through st out st')
    (htold : SizesModerate actor out)
    (hst : st.Moderate actor) : st'.Moderate actor := by
  cases h with
  | intro deals _ updates events =>
    refine updates.moderate (fun e he => htold e ?_) (deals.moderate hst)
    rw [← Signal.mem_events, events, List.mem_append]
    exact .inr (Signal.mem_events.mpr he)

end Store

/-! ## Motions and blocks -/

/-- A change of size that stays between the bounds; other motions change no size. -/
def Motion.Moderate : Motion α → Prop
  | .resize start stop => Exact.Moderate start ∧ Exact.Moderate stop
  | _ => True

/-- A sleep after which no size comes out of bounds. -/
def Pause.Moderate (now : α) : Pause α → Prop
  | .frame m span => Pause.Begun now (.frame m span) ∧ m.Moderate
  | _ => True

/-- A run that is suspended where no size comes out of bounds when it goes on. -/
def Place.Moderate (now : α) : Place α → Prop
  | .asleep pause _ _ _ => pause.Moderate now
  | _ => True

/-- What a block has told and will tell of sizes lies between the bounds. -/
def Leaf.Moderate (actor : Int) (now : α) : Leaf α → Prop
  | .finished _ out | .failed _ out => SizesModerate actor out
  | .sleeping _ out _ pause => SizesModerate actor out ∧ pause.Moderate now

/-- What an activity tells of sizes, and will tell when the run goes on, lies between the bounds. -/
structure Activity.Moderate (actor : Int) (now : α) (a : Activity α) : Prop where
  told : SizesModerate actor a.out
  place : ∀ place, a.halt.place? = some place → place.Moderate now

private theorem Activity.Moderate.after {actor : Int} {now : α} {a : Activity α} (h : a.Moderate actor now)
    {out : List (Signal α)} (hout : SizesModerate actor out) : (a.after out).Moderate actor now :=
  ⟨hout.append h.told, h.place⟩

private theorem Activity.fail_moderate (w : World α) (actor : Int) (now : α) : (fail w actor).Moderate actor now :=
  ⟨.fail w actor, by simp [fail, Halt.place?]⟩

namespace Motion

private theorem draw_moderate {m : Motion α} (hm : m.Moderate) {w w' : World α} {actor : Int} {t : α}
    (ht : 0 ≤ value t ∧ value t ≤ 1) {out : List (Signal α)} (h : m.draw w actor t = .ok (w', out)) :
    SizesModerate actor out := by
  cases m with
  | glide start stop =>
    obtain ⟨-, -, -, rfl⟩ := World.glide_eq_ok.mp h
    refine .ofSizeless fun e he => ?_
    cases List.mem_singleton.mp he
    rfl
  | turn start degrees => exact .ofWrite rfl h
  | resize start stop =>
    obtain ⟨-, -, -, rfl⟩ := World.write_eq_ok.mp h
    intro e he _ v hv
    cases List.mem_singleton.mp he
    cases hv
    exact ⟨_, rfl, Set.uIcc_subset_Icc hm.1 hm.2 (lerp_between ht.1 ht.2)⟩

private theorem frame_moderate {m : Motion α} (hm : m.Moderate) {w w' : World α} {room : Nat} {actor : Int}
    {progress : α}
    (hshare : IsShare progress) {out : List (Signal α)} (h : m.frame w room actor progress = .ok (w', out)) :
    SizesModerate actor out := by
  obtain ⟨-, -, h⟩ := bind_eq_ok h
  obtain ⟨t, ht, h⟩ := bind_eq_ok h
  obtain ⟨u, hu, hvalue⟩ := m.easing.apply_eq progress
  cases ht.symm.trans hu
  obtain ⟨hzero, hone⟩ := isShare_iff.mp hshare
  refine draw_moderate hm ⟨?_, ?_⟩ h
  · rw [hvalue, ← m.easing.curve_zero]
    exact m.easing.curve_mono hzero
  · rw [hvalue, ← m.easing.curve_one]
    exact m.easing.curve_mono hone

private theorem plan_moderate {confine : Point α → Point α} {a : Actor α} (hsize : a.size.Moderate)
    {i : Instruction α}
    {m : Motion α} {seconds : α} (h : plan? confine a i = some (.ok (m, seconds))) : m.Moderate := by
  cases i with
  | resize change =>
    obtain ⟨x, hx, hmoderate⟩ := hsize
    have hextent : a.extent = .ok (.real x) := by simp [Actor.extent, hx, Value.number?]
    obtain ⟨extra, hextra⟩ := toScalar_isOk change
    obtain ⟨seconds', hplan⟩ := Instruction.plan_resize confine hextent rfl hextra
    cases hplan.symm.trans h
    refine ⟨hmoderate, ?_⟩
    rw [Exact.Moderate, value_clamp, Exact.whole, Exact.whole]
    exact ⟨le_max_left _ _, max_le (by norm_num) (min_le_left _ _)⟩
  | move steps =>
    obtain ⟨x, hx⟩ := toScalar_isOk steps
    simp only [plan?, hx] at h
    cases h
    trivial
  | turn degrees =>
    obtain ⟨x, hx⟩ := toScalar_isOk degrees
    simp only [plan?, hx] at h
    cases h
    trivial
  | goto x y =>
    obtain ⟨u, hu⟩ := toScalar_isOk x
    obtain ⟨v, hv⟩ := toScalar_isOk y
    simp only [plan?, hu, hv] at h
    cases h
    trivial
  | wait _ | say _ _ | recolour _ | loop _ => cases h

end Motion

namespace Leaf

variable {w : World α} {actor : Int} {room : Nat} {now : α}

private theorem ofWrite_moderate {written : Except Error (World α × List (Signal α))}
    (h : ∀ w' out, written = .ok (w', out) → SizesModerate actor out) : (ofWrite w written).Moderate actor now := by
  cases written with
  | error cause => exact .ofSizeless (by simp)
  | ok done => exact h _ _ rfl

private theorem ofMotion_moderate {m : Motion α} (hm : m.Moderate) (seconds : α) :
    (ofMotion w room now actor m seconds).Moderate actor now := by
  unfold ofMotion
  split
  · exact ofWrite_moderate fun w' out h => Motion.frame_moderate hm Gradual.isShare_one h
  · rename_i hlasts
    split
    · exact .ofSizeless (by simp)
    · exact ⟨.ofSizeless (by simp), ⟨trivial, Timeline.lt_irrefl trivial, by simpa using hlasts⟩, hm⟩

private theorem rest_moderate {seconds : Number α} {leaf : Leaf α} (h : rest w room seconds = .ok leaf) :
    leaf.Moderate actor now := by
  obtain ⟨-, -, h⟩ := bind_eq_ok h
  obtain ⟨x, -, h⟩ := bind_eq_ok h
  cases h
  exact ⟨.ofSizeless (by simp), trivial⟩

private theorem start_moderate {a : Actor α} (hsize : a.size.Moderate) {i : Instruction α} {leaf : Leaf α}
    (h : start w room now a i = .ok leaf) : leaf.Moderate a.id now := by
  cases hplan : Motion.plan? w.settings.confine a i with
  | some plan =>
    rw [start_plan hplan] at h
    cases plan with
    | error cause => cases h
    | ok p =>
      cases h
      exact ofMotion_moderate (Motion.plan_moderate hsize hplan) _
  | none =>
    cases i with
    | wait seconds => exact rest_moderate h
    | say message seconds =>
      obtain ⟨x, -, h⟩ := bind_eq_ok h
      obtain ⟨-, -, h⟩ := bind_eq_ok h
      obtain ⟨⟨w', out⟩, hw, h⟩ := bind_eq_ok h
      cases h
      exact ⟨.ofWrite rfl hw, trivial⟩
    | recolour index =>
      obtain ⟨-, -, h⟩ := bind_eq_ok h
      cases h
      exact ofWrite_moderate fun w' out hw => .ofWrite rfl hw
    | loop times =>
      cases h
      exact .ofSizeless (by simp)
    | move _ | turn _ | goto _ _ | resize _ => cases hplan

private theorem begin_moderate (hw : w.store.Moderate actor) (i : Instruction α) :
    (begin w room now actor i).Moderate actor now := by
  have hstart : ∀ leaf, (w.store.get actor).bind (start w room now · i) = .ok leaf → leaf.Moderate actor now := by
    intro leaf h
    obtain ⟨a, ha, h⟩ := bind_eq_ok h
    have hfound := Store.get_eq_ok.mp ha
    rw [← Store.get?_id hfound]
    exact start_moderate (hw a hfound) h
  unfold begin
  dsimp only
  split
  · rename_i leaf hleaf
    split at hleaf
    · exact rest_moderate hleaf
    · exact hstart leaf hleaf
  · exact .ofSizeless (by simp)

private theorem wake_moderate {pause : Pause α} (h : pause.Moderate now) :
    (wake w room now actor pause).Moderate actor now := by
  cases pause with
  | rest => exact .ofSizeless (by simp)
  | bubble =>
    refine ofWrite_moderate fun w' out hwritten => ?_
    obtain ⟨-, -, hwritten⟩ := bind_eq_ok hwritten
    exact .ofWrite rfl hwritten
  | frame m span =>
    obtain ⟨⟨hstart, hpassed, hlasts⟩, hm⟩ := h
    simp only [wake]
    split
    · exact .ofSizeless (by simp)
    · rename_i w' out hframe
      have htold := Motion.frame_moderate hm (Span.isShare_progress hpassed hlasts) hframe
      split
      · exact ⟨htold, ⟨hstart, hpassed, hlasts⟩, hm⟩
      · exact htold

end Leaf

/-! ## Resumptions -/

private theorem World.moderate_of_doing {actor other : Int} {w w' : World α} {out : List (Signal α)}
    (hw : w.store.Moderate actor) (h : Doing other w out w') (htold : SizesModerate actor out) :
    w'.store.Moderate actor :=
  h.updates.moderate htold hw

namespace Moment

/-- What reaching a block comes to tells no size out of bounds, and stores none. -/
def KeepsModerate (m : Moment α) : Activity α ⊕ World α × List (Signal α) → Prop
  | .inl a => a.Moderate m.actor m.now
  | .inr (w, out) => SizesModerate m.actor out ∧ w.store.Moderate m.actor

private theorem afterLeaf_moderate (m : Moment α) (rest : Program α) (loops : List (Loop α)) {w : World α}
    (hw : w.store.Moderate m.actor) {out : List (Signal α)} (hout : SizesModerate m.actor out) {leaf : Leaf α}
    (hproper : leaf.Proper m.actor w) (h : leaf.Moderate m.actor m.now) :
    m.KeepsModerate (m.afterLeaf rest loops out leaf) := by
  cases leaf with
  | finished w' more => exact ⟨hout.append h, w.moderate_of_doing hw (.ofConduct hproper.conduct) h⟩
  | failed w' more => exact (Activity.fail_moderate w' m.actor m.now).after (hout.append h)
  | sleeping w' more seconds pause =>
    refine ⟨hout.append h.1, ?_⟩
    rintro place ⟨⟩
    exact h.2

private theorem dispatch_sequence_moderate (m : Moment α) :
    (∀ (b : Block α) rest loops w, w.store.Moderate m.actor → m.KeepsModerate (dispatch m rest loops w b)) ∧
    ∀ (p : Program α) loops w, w.store.Moderate m.actor → (sequence m loops w p).Moderate m.actor m.now := by
  apply Block.induction
  case block =>
    intro id typeId raw children ih rest loops w hw
    have hreaches := dispatch_reaches m rest loops w ⟨id, typeId, raw, children⟩
    generalize dispatch m rest loops w ⟨id, typeId, raw, children⟩ = result at hreaches
    cases hreaches with
    | refused noted reason => exact (Activity.fail_moderate w m.actor m.now).after (.ofSizeless (by simp))
    | skipped unknown => exact ⟨.ofSizeless (by simp), hw⟩
    | broken resolved none => exact (Activity.fail_moderate w m.actor m.now).after (.announced m _ _ _)
    | idle resolved loop nothing => exact ⟨.announced m _ _ _, hw⟩
    | enter resolved loop something => exact (ih _ w hw).after (.announced m _ _ _)
    | leaf resolved instruction noLoop =>
      exact m.afterLeaf_moderate rest loops hw (.announced m _ _ _) (Leaf.begin_proper _ _ _ _ _)
        (Leaf.begin_moderate hw _)
  case nil =>
    intro loops w hw
    rw [sequence]
    refine ⟨.ofSizeless (by simp), ?_⟩
    rintro place ⟨⟩
    trivial
  case cons =>
    intro b rest hb hrest loops w hw
    have hdispatch := hb rest loops w hw
    rw [sequence]
    split
    · rename_i activity h
      rw [h] at hdispatch
      exact hdispatch
    · rename_i w' out h
      rw [h] at hdispatch
      exact (hrest loops w' hdispatch.2).after hdispatch.1

private theorem sequence_moderate (m : Moment α) (loops : List (Loop α)) {w : World α}
    (hw : w.store.Moderate m.actor)
    (p : Program α) : (sequence m loops w p).Moderate m.actor m.now :=
  (dispatch_sequence_moderate m).2 p loops w hw

private theorem step_moderate (m : Moment α) {w : World α} (hw : w.store.Moderate m.actor) :
    (step m w).Moderate m.actor m.now := by
  rcases step_cases m w with ⟨-, hs⟩ | ⟨a, -, -, hs⟩ | ⟨a, block, w₁, said, -, -, written, hs⟩
  · rw [hs]
    exact Activity.fail_moderate w m.actor m.now
  · rw [hs]
    exact ⟨.ofSizeless (by simp), by simp [Halt.place?]⟩
  · rw [hs]
    have hsaid : SizesModerate m.actor said := .ofWrite rfl written
    have hw₁ : w₁.store.Moderate m.actor :=
      (World.write_updates (Patch.plain_stepIndex _) written).moderate hsaid hw
    exact (sequence_moderate m [] hw₁ [block]).after hsaid

private theorem next_moderate (m : Moment α) {w : World α} (hw : w.store.Moderate m.actor)
    (loops : List (Loop α)) :
    (next m w loops).Moderate m.actor m.now := by
  cases loops with
  | nil => exact step_moderate { m with index := m.index + 1 } hw
  | cons l loops =>
    obtain ⟨inner, q, hnext⟩ := next_cons m w l loops
    rw [hnext]
    exact sequence_moderate m inner hw q

end Moment

namespace Place

variable {now : α} {actor : Int} {w : World α}

private theorem resume_moderate {place : Place α} (hplace : place.Moderate now) (hw : w.store.Moderate actor) :
    (place.resume now actor w).Moderate actor now := by
  cases place with
  | fresh => exact Moment.step_moderate ⟨now, actor, 0⟩ hw
  | asleep pause rest loops index =>
    have hwake : (Leaf.wake w (w.roomBelow loops.length) now actor pause).Moderate actor now :=
      Leaf.wake_moderate hplace
    simp only [resume]
    cases hleaf : Leaf.wake w (w.roomBelow loops.length) now actor pause with
    | finished w' out =>
      rw [hleaf] at hwake
      exact (Moment.sequence_moderate ⟨now, actor, index⟩ loops (w.moderate_of_doing hw (.ofWake hleaf) hwake)
        rest).after hwake
    | sleeping w' out seconds pause' =>
      rw [hleaf] at hwake
      refine ⟨hwake.1, ?_⟩
      rintro place ⟨⟩
      exact hwake.2
    | failed w' out =>
      rw [hleaf] at hwake
      exact (Activity.fail_moderate w' actor now).after hwake
  | turn loops index =>
    have hdeals := World.collide_deals w.store.within_programs (w.passRoom loops.length)
    have hpass : SizesModerate actor (.pass actor :: (w.collide (w.passRoom loops.length)).2.1) :=
      .ofSizeless fun e he => hdeals.sizeless e (by simpa using he)
    rw [resume_turn]
    refine Activity.Moderate.after ?_ hpass
    unfold afterPass
    split
    · exact Activity.fail_moderate _ actor now
    · exact Moment.next_moderate ⟨now, actor, index⟩ (hdeals.moderate hw) loops

private theorem resume_other {other : Int} (hne : other ≠ actor) (place : Place α) :
    SizesModerate actor (place.resume now other w).out := by
  cases place with
  | fresh => exact .ofOther hne (Moment.step_own ⟨now, other, 0⟩ w).signals
  | asleep pause rest loops index => exact .ofOther hne (resume_asleep_own now other w pause rest loops index).signals
  | turn loops index =>
    have hdeals := World.collide_deals w.store.within_programs (w.passRoom loops.length)
    have hpass : SizesModerate actor (.pass other :: (w.collide (w.passRoom loops.length)).2.1) :=
      .ofSizeless fun e he => hdeals.sizeless e (by simpa using he)
    rw [resume_turn]
    exact hpass.append (.ofOther hne (afterPass_own now other loops index _).signals)

private theorem Moderate.later {later : α} {place : Place α} (h : place.Moderate now)
    (hle : Scalar.lt later now = false) : place.Moderate later := by
  cases place with
  | fresh | turn _ _ => trivial
  | asleep pause rest loops index =>
    cases pause with
    | rest | bubble => trivial
    | frame m span =>
      obtain ⟨⟨-, hbegun, hlasts⟩, hm⟩ := h
      exact ⟨⟨trivial, Timeline.le_trans trivial trivial trivial hbegun hle, hlasts⟩, hm⟩

end Place

/-! ## Stages -/

namespace Stage

variable {actor : Int} {s s' : Stage α} {out : List (Signal α)}

omit [Exact α] in
def staysOnward : Stage α → List (Act α) → Bool
  | _, [] => true
  | s, a :: acts => s.onward a && (s.perform a).1.staysOnward acts

omit [Exact α] in
theorem staysOnward_append {acts more : List (Act α)} :
    s.staysOnward (acts ++ more) = (s.staysOnward acts && (s.enact acts).1.staysOnward more) := by
  induction acts generalizing s with
  | nil => rfl
  | cons a acts ih => rw [List.cons_append, staysOnward, ih, staysOnward, Bool.and_assoc, enact]

private theorem Edited.moderate (h : Edited s s' out) (hasc : s.store.Ascending) (hknown : actor < s.store.nextId)
    (hsize : s.store.Moderate actor) :
    actor < s'.store.nextId ∧ s'.store.Moderate actor ∧ SizesModerate actor out := by
  cases h with
  | nothing world _ told =>
    have hstore : s'.store = s.store := congrArg World.store world
    rw [hstore, told]
    exact ⟨hknown, hsize, .ofSizeless (by simp)⟩
  | skipped world _ told =>
    rw [store_of_world world, told]
    exact ⟨by dsimp only; omega, hsize, .ofSizeless (by simp)⟩
  | added a newcomer world _ told =>
    have hnew : a.id ≠ actor := by
      rw [newcomer.id]
      omega
    rw [store_of_world world, told]
    refine ⟨by dsimp only; omega, ?_, .ofOther hnew (by simp [Store.castSignals, Signal.Of])⟩
    intro b hb
    rw [Store.get?_add hasc newcomer.id, if_neg (by omega)] at hb
    exact hsize b hb
  | deleted other world _ told =>
    rw [store_of_world world, told]
    refine ⟨hknown, ?_, .ofSizeless (by simp [Event.size?])⟩
    intro b hb
    rw [Store.get?_erase] at hb
    split at hb
    · cases hb
    · exact hsize b hb
  | revised other a p found world _ told =>
    rw [store_of_world world, told]
    refine ⟨hknown, hsize.keep found rfl rfl, .ofSizeless fun e he => ?_⟩
    split at he
    · cases List.mem_singleton.mp he
      rfl
    · simp at he

/-! ### Acts of play -/

private theorem playActor_sizeless (s : Stage α) (other : Int) : SizesModerate actor (s.playActor other).out := by
  rcases playActor_cases s other with hnot | ⟨a, w, said, hp, hw⟩
  · rw [(playActor_of_not hnot).2.1]
    exact .ofSizeless (by simp)
  · rw [playActor_of_playable hp hw]
    exact (SizesModerate.ofWrite rfl hw).append (.notice _)

private theorem playEach_sizeless (actors : List Int) (s : Stage α) :
    SizesModerate actor (playEach actors s).out := by
  induction actors generalizing s with
  | nil => exact .ofSizeless (by simp [playEach, reply])
  | cons other actors ih => exact (playActor_sizeless s other).append (ih _)

private theorem stop_sizeless (h : s.Orderly) {actors : List Int} (hnodup : actors.Nodup) :
    SizesModerate actor (s.stop actors).out := by
  by_cases hsome : actors.filter s.players.contains = []
  · rw [stop_of_none hsome]
    exact .ofSizeless (by simp [reply])
  · obtain ⟨w, said, hstop, -, hsaid⟩ := stop_spec h hnodup hsome
    rw [hstop]
    refine SizesModerate.append (.ofSizeless fun e he => ?_) (.notice _)
    obtain ⟨other, -, rfl⟩ := List.mem_map.mp (hsaid.mem_iff.mp (Signal.mem_events.mpr he))
    rfl

private theorem resume_moderate {t : Task α} {other : Int} (h : Roster s.world s.engines (t :: s.live))
    (hown : t.engine = .player other) (hplace : other = actor → t.place.Moderate s.now)
    (hsize : s.store.Moderate actor) : SizesModerate actor (s.resume t).2 := by
  have hactivity : SizesModerate actor (t.place.resume s.now other s.world).out := by
    by_cases heq : other = actor
    · subst heq
      exact (Place.resume_moderate (hplace rfl) hsize).told
    · exact Place.resume_other heq t.place
  rcases resume_cases h hown rfl with
    ⟨seconds, place, -, hs⟩ | ⟨place, -, hs⟩ | ⟨outcome, w, said, -, hwrite, hs⟩
  · rw [hs]
    exact hactivity
  · rw [hs]
    exact hactivity
  · rw [hs]
    exact hactivity.append ((SizesModerate.ofWrite rfl hwrite).append (.notice _))

/-- A stage on which an actor has a size between the bounds and does nothing that leads out of them. -/
structure Moderate (actor : Int) (s : Stage α) : Prop where
  reachable : Reachable s
  punctual : s.Punctual
  known : actor < s.store.nextId
  size : s.store.Moderate actor
  places : ∀ t ∈ s.live, t.engine = .player actor → t.place.Moderate s.now

namespace Moderate

/-- What acts of play tell of sizes. -/
theorem told (h : s.Moderate actor) {a : Act α} (hfree : a.editFree = true) : SizesModerate actor (s.perform a).2 := by
  have horderly := h.reachable.orderly
  cases a with
  | playAll =>
    simp only [Stage.perform, Reply.effect, playAll]
    split
    · exact playEach_sizeless _ s
    · exact (playEach_sizeless _ s).append (.notice _)
  | playActor other => exact playActor_sizeless s other
  | stopAll => exact stop_sizeless horderly horderly.players_nodup
  | stopActor other =>
    simp only [Stage.perform, Reply.effect, stopActor]
    split
    · exact .ofSizeless (by simp [refuse])
    · exact stop_sizeless horderly (List.nodup_singleton other)
  | selectActor other =>
    simp only [Stage.perform, Reply.effect, selectActor]
    split <;> exact .ofSizeless (by simp [refuse, reply])
  | beat b =>
    cases b with
    | turn =>
      cases hready : s.ready with
      | nil => exact .ofSizeless (by simp [Stage.perform, beat, hready])
      | cons first rest =>
        have hfirst : first ∈ s.live := by simp [live, hready]
        obtain ⟨⟨other, hown⟩, -⟩ := horderly.tasks first hfirst
        simp only [Stage.perform, beat, hready]
        exact resume_moderate (s := { s with ready := rest }) (horderly.atTurn hready) hown
          (fun heq => h.places first hfirst (heq ▸ hown)) h.size
    | retire | wake | clock _ =>
      simp only [Stage.perform, beat]
      first
        | exact .ofSizeless (by simp)
        | split <;> exact .ofSizeless (by simp)
  | _ => cases hfree

/-- No act but a reset leads out of the bounds, unless it sets the clock back. -/
theorem perform (h : s.Moderate actor) {a : Act α} (hreset : a ≠ .reset) (honward : s.onward a = true) :
    (s.perform a).1.Moderate actor ∧ SizesModerate actor (s.perform a).2 := by
  have horderly := h.reachable.orderly
  obtain ⟨hpunctual, hlater⟩ := h.punctual.perform horderly (fun _ _ => trivial) honward
  -- A motion that sleeps through the act has still begun after it, as time has not gone back.
  have hplaces : ∀ t ∈ (s.perform a).1.live, t.engine = .player actor → t.place.Moderate (s.perform a).1.now := by
    intro t ht hown
    refine Place.Moderate.later ?_ hlater
    rcases live_perform horderly a ht with hmem | hfresh | ⟨first, rest, other, -, hready, hother, hengine, hplace⟩
    · exact h.places t hmem hown
    · rw [hfresh]
      trivial
    · obtain rfl : other = actor := EngineId.player.inj (hother.symm.trans (hengine.symm.trans hown))
      exact (Place.resume_moderate (h.places first (by simp [live, hready]) hother) h.size).place _ hplace
  rcases Act.cases a with hedit | hfree | hempties
  · obtain ⟨hknown, hsize, htold⟩ := (perform_edited s hedit).moderate horderly.ascending h.known h.size
    exact ⟨⟨h.reachable.act a, hpunctual, hknown, hsize, hplaces⟩, htold⟩
  · have hplays := perform_plays s hfree
    have htold := h.told hfree
    have hknown : actor < (s.perform a).1.store.nextId := hplays.frame.nextId ▸ h.known
    exact ⟨⟨h.reachable.act a, hpunctual, hknown, hplays.store.moderate htold h.size, hplaces⟩, htold⟩
  · exact absurd hempties hreset

private theorem enact (h : s.Moderate actor) {acts : List (Act α)} (hreset : .reset ∉ acts)
    (honward : s.staysOnward acts = true) :
    (s.enact acts).1.Moderate actor ∧ SizesModerate actor (s.enact acts).2 := by
  induction acts generalizing s with
  | nil => exact ⟨h, .ofSizeless (by simp [Stage.enact])⟩
  | cons a acts ih =>
    obtain ⟨hnow, hrest⟩ := Bool.and_eq_true_iff.mp honward
    obtain ⟨hact, htold⟩ := h.perform (fun heq => hreset (heq ▸ List.mem_cons_self)) hnow
    obtain ⟨hend, hmore⟩ := ih hact (fun hmem => hreset (List.mem_cons_of_mem _ hmem)) hrest
    exact ⟨hend, htold.append hmore⟩

private theorem ofIdle (hreachable : Reachable s) (hpunctual : s.Punctual) {a : Actor α}
    (ha : s.store.get? a.id = some a)
    (hidle : s.runs? a.id = false) (hsize : a.size.Moderate) : s.Moderate a.id where
  reachable := hreachable
  punctual := hpunctual
  known := hreachable.orderly.ascending.below _ (Store.isSome_get?.mp (Option.isSome_iff_exists.mpr ⟨a, ha⟩))
  size b hb := by
    cases ha.symm.trans hb
    exact hsize
  places t ht hown := by
    rw [hreachable.orderly.runs_of_live ht hown] at hidle
    cases hidle

end Moderate

private theorem Punctual.enact (h : s.Punctual) (hreachable : Reachable s) {acts : List (Act α)}
    (honward : s.staysOnward acts = true) : (s.enact acts).1.Punctual := by
  induction acts generalizing s with
  | nil => exact h
  | cons a acts ih =>
    obtain ⟨hnow, hrest⟩ := Bool.and_eq_true_iff.mp honward
    exact ih (h.perform hreachable.orderly (fun _ _ => trivial) hnow).1 (hreachable.act a) hrest

/-- Motions stay on their tracks where nothing is rounded. A movement that sets out from a point of the stage goes to
the point of the stage closest to its aim: each frame puts the actor at a point that is stored as it is, lies on the
stage and in the rectangle of the two, and leads on from the frames before, and a movement that gets through ends at its
end. In the same way a change of size goes from the size that there is to the size that is asked for, brought between
20 and 100. So an actor whose size lies between 20 and 100 when it is idle keeps such a size and is told no other,
whatever programs are run and edited, as long as the stage is not emptied and its clock not set back. -/
theorem motions_stay_on_track :
    (∀ (w : World α) (a : Actor α) (i : Instruction α), w.store.get? a.id = some a → w.settings.Holds a.position →
      ((∃ steps, i = .move steps) ∨ ∃ x y, i = .goto x y) → ∃ aim, i.aim? a = some aim ∧
        i.Leads w a.id (fun frame p => PutsAt a.id frame p ∧ w.settings.Holds p) Point.Between a.position
          (w.settings.confine aim)) ∧
    (∀ (w : World α) (a : Actor α) (n change : Number α), w.store.get? a.id = some a → a.extent = .ok n →
      ∃ size extra, n.toScalar = .ok size ∧ change.toScalar = .ok extra ∧
        (Instruction.resize change).Leads w a.id (GivesSize a.id) Exact.Between size
          (Scalar.clamp (Scalar.whole 20) (Scalar.whole 100) (size + extra))) ∧
    ∀ (s : Stage α), s.IsEmpty → ∀ before after : List (Act α), s.staysOnward (before ++ after) = true →
      .reset ∉ after → ∀ a, (s.enact before).1.store.get? a.id = some a → (s.enact before).1.runs? a.id = false →
        a.size.Moderate →
          (∀ b, ((s.enact before).1.enact after).1.store.get? a.id = some b → b.size.Moderate) ∧
          ∀ e, .event e ∈ ((s.enact before).1.enact after).2 → e.actor = a.id → ∀ v, e.size? = some v →
            v.Moderate := by
  refine ⟨fun w a i ha hon hmoves => ?_, fun w a n change ha hextent => ?_, ?_⟩
  · obtain ⟨aim, haim⟩ := Instruction.aim_of_moves a hmoves
    exact ⟨aim, haim, Instruction.leads_to_aim ha hon haim⟩
  · obtain ⟨size, hsize⟩ := toScalar_isOk n
    obtain ⟨extra, hextra⟩ := toScalar_isOk change
    exact ⟨size, extra, hsize, hextra, Instruction.leads_to_size ha hextent hsize hextra⟩
  · intro s hempty before after honward hreset a ha hidle hsize
    rw [staysOnward_append, Bool.and_eq_true] at honward
    have hreachable := Reachable.empty hempty
    have hpunctual : s.Punctual := ⟨trivial, by simp [hempty.sleepers]⟩
    have hthere := Moderate.ofIdle (hreachable.enact before) (hpunctual.enact hreachable honward.1) ha hidle hsize
    obtain ⟨hend, htold⟩ := hthere.enact hreset honward.2
    exact ⟨hend.size, htold⟩

/-- Acts that give the first actor a program which leads beyond the stage and beyond the bounds of sizes. -/
def overreach : List (Act ℚ) :=
  [.init, .submit 1 "goto" [("x", .int 1000), ("y", .int 40)] none, .submit 1 "change_size" [("change", .int 70)] none]

/-- The program is run, with a round of turns after each waking. -/
def playedOut (rounds : Nat) : List (Act ℚ) := .playAll :: (List.replicate rounds [.beat .turn, .beat .wake]).flatten

theorem overreach_stays_on_track :
    ∃ a : Actor ℚ, a.id = 1 ∧ (coarse.enact overreach).1.store.get? a.id = some a ∧
      (coarse.enact overreach).1.settings.Holds a.position ∧
      (∃ aim, (Instruction.goto (.int 1000) (.int 40)).aim? a = some aim ∧
        (Instruction.goto (.int 1000) (.int 40)).Leads (coarse.enact overreach).1.world a.id
          (fun frame p => PutsAt a.id frame p ∧ (coarse.enact overreach).1.settings.Holds p) Point.Between a.position
          ((coarse.enact overreach).1.settings.confine aim)) ∧
      (∃ size extra, Number.toScalar (.real 50) = .ok size ∧ Number.toScalar (.int 70) = .ok extra ∧
        (Instruction.resize (.int 70)).Leads (coarse.enact overreach).1.world a.id (GivesSize a.id) Exact.Between size
          (Scalar.clamp (Scalar.whole 20) (Scalar.whole 100) (size + extra))) ∧
      (∀ b, ((coarse.enact overreach).1.enact (playedOut 12)).1.store.get? a.id = some b → b.size.Moderate) ∧
      (∀ e, .event e ∈ ((coarse.enact overreach).1.enact (playedOut 12)).2 → e.actor = a.id → ∀ v, e.size? = some v →
        v.Moderate) ∧
      ((coarse.enact overreach).1.enact (playedOut 12)).1.store.actors.map (fun b => (b.position.x, b.position.y)) =
        [(800, 40)] := by
  obtain ⟨hmoves, hresizes, hsizes⟩ := motions_stay_on_track (α := ℚ)
  have hreachable : Reachable (coarse.enact overreach).1 := (Reachable.empty (new_isEmpty _ _)).enact _
  obtain ⟨a, ha⟩ := Option.isSome_iff_exists.mp
    (by decide +kernel : ((coarse.enact overreach).1.store.get? 1).isSome = true)
  have hplace : ((coarse.enact overreach).1.store.get? 1).map (fun b => (b.position.x, b.position.y)) =
      some (100, 100) := by decide +kernel
  have hextent : ((coarse.enact overreach).1.store.get? 1).map (fun b => (b.extent.bind Number.toScalar).toOption) =
      some (some 50) := by decide +kernel
  obtain ⟨x, hx⟩ := hreachable.sized 1 a ha
  rw [ha] at hplace hextent
  obtain rfl : x = 50 := by
    simpa [Actor.extent, hx, Value.number?, Except.bind, Number.toScalar, Except.toOption] using hextent
  have hid := Store.get?_id ha
  rw [← hid] at ha
  have hinside : (coarse.enact overreach).1.settings.Holds a.position := by
    obtain ⟨hleft, hbottom⟩ := Prod.mk.inj (Option.some.inj hplace)
    refine ⟨?_, ?_, ?_, ?_⟩
    · rw [hleft]
      decide +kernel
    · rw [hleft]
      decide +kernel
    · rw [hbottom]
      decide +kernel
    · rw [hbottom]
      decide +kernel
  have hkept := hsizes coarse (new_isEmpty _ _) overreach (playedOut 12) (by decide +kernel) (by simp [playedOut]) a ha
    (by rw [hid]; decide +kernel) ⟨50, hx, by norm_num [Exact.Moderate, Exact.value]⟩
  exact ⟨a, hid, ha, hinside, hmoves _ a _ ha hinside (.inr ⟨_, _, rfl⟩),
    hresizes _ a (.real 50) (.int 70) ha (by simp [Actor.extent, hx, Value.number?]), hkept.1, hkept.2,
    by decide +kernel⟩

end Stage

end SpriteStage
