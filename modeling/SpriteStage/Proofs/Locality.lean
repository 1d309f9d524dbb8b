import SpriteStage.Proofs.Retouching
/-!
# Edits in their place

A program is seen in two ways: as the listing of its blocks in pre-order, and as its rows, each of
which holds what stands side by side, at the top or right inside of one block. An edit of a block
touches one stretch of the listing and one row.
-/
namespace SpriteStage

variable {α : Type}

private theorem Fields.names_put_of_mem {fs : Fields α} {name : String} (h : name ∈ fs.names) (v : Value α) :
    (fs.put name v).names = fs.names := by
  induction fs with
  | nil => cases h
  | cons entry rest ih =>
    obtain ⟨n, w⟩ := entry
    by_cases hn : n = name
    · rw [put, if_pos hn]
      rfl
    · rw [put, if_neg hn]
      exact congrArg (n :: ·) (ih ((List.mem_cons.mp h).resolve_left (Ne.symm hn)))

namespace Program

variable {f : Block α → List (Block α)} {x : Block α} {p q : Program α} {name : String}

/-! ## Rows -/

/-- The names of the blocks that stand side by side at the top, or right inside of a block. -/
def row (p : Program α) : Option String → Option (List String)
  | none => some (p.map (·.id))
  | some owner => (find? p owner).map fun b => b.children.map (·.id)

private theorem top_subset (p : Program α) : p.map (·.id) ⊆ ids p := by
  induction p with
  | nil => exact List.Subset.refl _
  | cons b rest ih =>
    rw [List.map_cons, ids_cons, List.cons_append]
    exact List.cons_subset_cons _ (List.subset_append_of_subset_right _ ih)

private theorem inner_subset {b : Block α} (hb : b ∈ preorder p) : b.children.map (·.id) ⊆ ids p := by
  induction p using induction with
  | nil => cases hb
  | cons c rest hchildren hrest =>
    rw [preorder_cons, List.cons_append, List.mem_cons, List.mem_append] at hb
    rw [ids_cons, List.cons_append]
    rcases hb with rfl | hb | hb
    · exact fun n hn => List.mem_cons_of_mem _ (List.mem_append_left _ (top_subset _ hn))
    · exact fun n hn => List.mem_cons_of_mem _ (List.mem_append_left _ (hchildren hb hn))
    · exact fun n hn => List.mem_cons_of_mem _ (List.mem_append_right _ (hrest hb hn))

private theorem row_subset {owner : Option String} {names : List String} (h : row p owner = some names) :
    names ⊆ ids p := by
  cases owner with
  | none =>
    cases h
    exact top_subset p
  | some owner =>
    obtain ⟨b, hb, rfl⟩ := Option.map_eq_some_iff.mp h
    exact inner_subset (List.mem_of_find?_eq_some hb)

private theorem row_retouch (g : String → Fields α → Fields α) (p : Program α) (owner : Option String) :
    row (retouch g p) owner = row p owner := by
  have htop : ∀ p : Program α, (retouch g p).map (·.id) = p.map (·.id) := by
    intro p
    induction p with
    | nil => rfl
    | cons b rest ih => rw [retouch_cons, List.map_cons, List.map_cons, ih]
  cases owner with
  | none => exact congrArg some (htop p)
  | some owner =>
    rw [row, row, find?_retouch, Option.map_map]
    congr 1
    funext b
    rw [Function.comp_apply, Block.retouch_eq]
    exact htop b.children

private theorem entries_retouch (g : String → Fields α → Fields α) (p : Program α) :
    entries (retouch g p) = (entries p).map fun e => (e.1, e.2.1, g e.1 e.2.2) := by
  induction p using induction with
  | nil => rfl
  | cons b rest hchildren hrest =>
    rw [retouch_cons, entries_cons, entries_cons, hchildren, hrest, List.cons_append, List.cons_append, List.map_cons,
      List.map_append]
    rfl

/-! ## Around a graft -/

namespace Grafts

private theorem top (h : Grafts f x p q) : q.map (·.id) = p.map (·.id) ∨
    ∃ before after, p.map (·.id) = before ++ x.id :: after ∧ q.map (·.id) = before ++ (f x).map (·.id) ++ after := by
  induction h with
  | here rest => exact .inr ⟨[], rest.map (·.id), rfl, List.map_append⟩
  | inside rest _ _ => exact .inl rfl
  | later b _ ih =>
    rcases ih with hsame | ⟨before, after, hp, hq⟩
    · exact .inl (congrArg (b.id :: ·) hsame)
    · exact .inr ⟨b.id :: before, after, congrArg (b.id :: ·) hp, congrArg (b.id :: ·) hq⟩

private theorem top_of_alike (h : Grafts f x p q) (hname : (f x).map (·.id) = [x.id]) :
    q.map (·.id) = p.map (·.id) := by
  rcases h.top with hsame | ⟨before, after, hp, hq⟩
  · exact hsame
  · rw [hq, hp, hname, List.append_assoc]
    rfl

private theorem find?_inside (h : Grafts f x p q) {y : Block α} (honly : (ids p).count name ≤ (ids [x]).count name)
    (hy : Program.find? (f x) name = some y) : Program.find? q name = some y := by
  induction h with
  | here rest => rw [find?_append, hy, Option.some_or]
  | @inside b cs rest graft ih =>
    have hle := graft.count_le name
    rw [ids_cons, List.cons_append, List.count_cons, List.count_append] at honly
    have hid : b.id ≠ name := by
      rintro rfl
      simp at honly
      omega
    rw [find?_cons, if_neg hid, ih (by omega), Option.some_or]
  | @later b rest rest' graft ih =>
    have hle := graft.count_le name
    rw [← List.singleton_append, ids_append, List.count_append] at honly
    have hnot : name ∉ ids [b] := List.count_eq_zero.mp (by omega)
    rw [← List.singleton_append, find?_append, find?_of_absent hnot, Option.none_or, ih (by omega)]

end Grafts

/-! ## Removals -/

/-- The second program is the first without a block and the blocks inside it. -/
structure Removal (p : Program α) (b : Block α) (q : Program α) : Prop where
  /-- They are cut out of the listing in one piece. -/
  listed : ∃ before after, entries p = before ++ entries [b] ++ after ∧ entries q = before ++ after
  rows : ∀ owner, (∀ name ∈ owner, name ∉ ids [b]) → row q owner = (row p owner).map (·.filter (· ≠ b.id))

private theorem Grafts.removal (h : Grafts (fun _ => []) x p q) (hnodup : (ids p).Nodup) : p.Removal x q where
  listed := by
    obtain ⟨before, after, hp, hq⟩ := h.listing
    exact ⟨before, after, hp, hq.trans (by rw [show entries ([] : Program α) = [] from rfl, List.append_nil])⟩
  rows := by
    have hgone : x.id ∉ ids q := by
      have hcount := h.count_ids x.id
      have honce := List.nodup_iff_count_le_one.mp hnodup x.id
      rw [ids_cons] at hcount
      simp only [List.cons_append, List.count_cons_self, ids_nil, List.count_nil] at hcount
      exact List.count_eq_zero.mp (by omega)
    -- In a row that is left, the block does not stand any more, so the row is what was there without it.
    have hrow : ∀ {cs cs' : Program α}, (cs'.map (·.id)) ⊆ ids q →
        (cs'.map (·.id) = cs.map (·.id) ∨ Grafts (fun _ => []) x cs cs') →
        cs'.map (·.id) = (cs.map (·.id)).filter (· ≠ x.id) := by
      intro cs cs' hsubset hchanged
      have hnot : x.id ∉ cs'.map (·.id) := fun hmem => hgone (hsubset hmem)
      have hall : ∀ n ∈ cs'.map (·.id), n ≠ x.id := fun n hn heq => hnot (heq ▸ hn)
      have hself : (cs'.map (·.id)).filter (· ≠ x.id) = cs'.map (·.id) :=
        List.filter_eq_self.mpr fun n hn => decide_eq_true (hall n hn)
      rcases hchanged with hsame | hgraft
      · rw [← hsame, hself]
      · rcases hgraft.top with hsame | ⟨before, after, hcs, hcs'⟩
        · rw [← hsame, hself]
        · rw [← hself, hcs', hcs]
          simp
    intro owner howner
    cases owner with
    | none => exact congrArg some (hrow (top_subset q) (.inr h))
    | some owner =>
      have habsent : Program.find? [] owner = Program.find? [x] owner :=
        (find?_of_absent (howner owner rfl)).symm
      rcases h.find? habsent with hsame | ⟨b, cs, hb, hb', hgraft⟩
      · rw [row, row, hsame]
        cases hb : Program.find? p owner with
        | none => rfl
        | some b =>
          have hq : row q (some owner) = some (b.children.map (·.id)) := by rw [row, hsame, hb]; rfl
          exact congrArg some (hrow (row_subset hq) (.inl rfl))
      · have hq : row q (some owner) = some (cs.map (·.id)) := by rw [row, hb']; rfl
        rw [hq, row, hb]
        exact congrArg some (hrow (row_subset hq) (.inr hgraft))

private theorem remove_removal (hnodup : (ids p).Nodup) (hx : find? p name = some x) :
    ∃ q, p.remove name = .ok (q, x) ∧ p.Removal x q := by
  have hlocate : p.locate name = .ok x := by rw [locate, hx]
  obtain ⟨q, hedit⟩ := edit_isOk hx fun _ => []
  obtain ⟨y, hy, hgraft⟩ := edit_eq_ok hedit
  cases locate_unique hlocate hy
  refine ⟨q, ?_, hgraft.removal hnodup⟩
  rw [remove, hlocate]
  change (p.edit name _).bind _ = _
  rw [hedit]
  rfl

/-! ## Settings -/

/-- The second program is the first with a value written under one name of the inputs of one block. -/
structure Setting (p : Program α) (b : Block α) (name : String) (v : Value α) (q : Program α) : Prop where
  listed : entries q = (entries p).map fun e => if e.1 = b.id then (e.1, e.2.1, e.2.2.put name v) else e
  inputs : ∀ other, (b.inputs.put name v).get? other = if other = name then some v else b.inputs.get? other
  names : name ∈ b.inputs.names → (b.inputs.put name v).names = b.inputs.names
  rows : ∀ owner, row q owner = row p owner

private theorem setting_write (p : Program α) (b : Block α) (name : String) (v : Value α) :
    p.Setting b name v (p.write b.id name v) where
  listed := by
    rw [write, entries_retouch]
    apply List.map_congr_left
    rintro ⟨i, typeId, fs⟩ -
    dsimp only
    split
    · rfl
    · rfl
  inputs other := Fields.get?_put _ _ _ _
  names h := Fields.names_put_of_mem h v
  rows := row_retouch _ p

/-! ## Insertions -/

/-- The second program is the first with a new block, which holds no others, at the end inside of a block. -/
structure Insertion (p : Program α) (holder b : Block α) (q : Program α) : Prop where
  new : b.id ∉ ids p
  childless : b.children = []
  /-- In the listing it comes right after the blocks that were inside. -/
  listed : ∃ before after, entries p = before ++ entries [holder] ++ after ∧
    entries q = before ++ entries [holder] ++ [b.entry] ++ after
  rows : ∀ owner, row q owner =
    if owner = some b.id then some []
    else if owner = some holder.id then (row p owner).map (· ++ [b.id])
    else row p owner

/-- A block with another one at the end inside of it. -/
def hold (b holder : Block α) : Block α := { holder with children := holder.children ++ [b] }

private theorem find?_hold {b holder : Block α} (hne : holder.id ≠ name) :
    find? [hold b holder] name = (find? holder.children name).or (find? [b] name) :=
  (find?_cons _ _ _).trans ((if_neg hne).trans (Option.or_none.trans (find?_append _ _ _)))

private theorem entries_hold {b holder : Block α} (hchildless : b.children = []) :
    entries [hold b holder] = entries [holder] ++ [b.entry] := by
  have hb : entries [b] = [b.entry] := by
    rw [entries_cons, hchildless]
    rfl
  have hnone : entries ([] : Program α) = [] := rfl
  rw [entries_cons, entries_cons, hold, entries_append, hb, hnone, List.append_nil, List.append_nil]
  rfl

private theorem Grafts.insertion {holder b : Block α} (h : Grafts (fun x => [hold b x]) holder p q)
    (hnodup : (ids p).Nodup)
    (hfound : Program.find? p holder.id = some holder) (hnew : b.id ∉ ids p) (hchildless : b.children = []) :
    p.Insertion holder b q where
  new := hnew
  childless := hchildless
  listed := by
    obtain ⟨before, after, hp, hq⟩ := h.listing
    refine ⟨before, after, hp, hq.trans ?_⟩
    rw [entries_hold hchildless]
    simp only [List.append_assoc]
  rows := by
    obtain ⟨hne, hinside⟩ : b.id ≠ holder.id ∧ b.id ∉ ids holder.children := by
      have hother : b.id ∉ ids [holder] := fun hmem => hnew (h.ids_subset hmem)
      simpa [ids_cons, ids_nil] using hother
    have hlast : ∀ n, Program.find? [b] n = if b.id = n then some b else none := by
      intro n
      rw [find?_cons, hchildless]
      rfl
    intro owner
    by_cases hb : owner = some b.id
    · have hlater : Program.find? [hold b holder] b.id = some b := by
        rw [find?_hold (Ne.symm hne), find?_of_absent hinside, hlast, if_pos rfl, Option.none_or]
      have honly : (ids p).count b.id ≤ (ids [holder]).count b.id := by
        rw [List.count_eq_zero.mpr hnew]
        exact Nat.zero_le _
      rw [if_pos hb, hb, row, h.find?_inside honly hlater, Option.map_some, hchildless]
      rfl
    rw [if_neg hb]
    by_cases ho : owner = some holder.id
    · have hlater : Program.find? [hold b holder] holder.id = some (hold b holder) :=
        (find?_cons _ _ _).trans (if_pos rfl)
      have honly : (ids p).count holder.id ≤ (ids [holder]).count holder.id := by
        refine Nat.le_trans (List.nodup_iff_count_le_one.mp hnodup _) ?_
        rw [ids_cons, List.cons_append, List.count_cons_self]
        exact Nat.le_add_left _ _
      rw [if_pos ho, ho, row, row, h.find?_inside honly hlater, hfound]
      exact congrArg some List.map_append
    rw [if_neg ho]
    cases owner with
    | none => exact congrArg some (h.top_of_alike rfl)
    | some owner =>
      have hne' : holder.id ≠ owner := fun heq => ho (congrArg some heq.symm)
      have hother : Program.find? [hold b holder] owner = Program.find? [holder] owner := by
        rw [find?_hold hne', hlast, if_neg fun heq => hb (congrArg some heq.symm), Option.or_none, find?_cons,
          if_neg hne']
        exact Option.or_none.symm
      rcases h.find? hother with hsame | ⟨y, cs, hy, hy', hgraft⟩
      · rw [row, row, hsame]
      · rw [row, row, hy, hy']
        exact congrArg some (hgraft.top_of_alike rfl)

private theorem append_insertion {c : Catalog α} {holder b : Block α} {t : BlockType α} (hnodup : (ids p).Nodup)
    (hholder : find? p name = some holder) (ht : c.lookup holder.typeId = .ok t) (hcontainer : t.isContainer = true)
    (hnew : b.id ∉ ids p) (hchildless : b.children = []) :
    ∃ q, p.append c b (some name) = .ok q ∧ p.Insertion holder b q := by
  have hid : holder.id = name := by simpa using List.find?_some hholder
  have hlocate : p.locate name = .ok holder := by rw [locate, hholder]
  obtain ⟨q, hedit⟩ := edit_isOk hholder fun x => [hold b x]
  obtain ⟨y, hy, hgraft⟩ := edit_eq_ok hedit
  cases locate_unique hlocate hy
  refine ⟨q, ?_, hgraft.insertion hnodup (hid ▸ hholder) hnew hchildless⟩
  rw [append, hlocate]
  change (c.lookup holder.typeId).bind _ = _
  rw [ht]
  exact (if_pos hcontainer).trans hedit

end Program

namespace Stage

variable [Scalar α]

/-- An edit of an idle actor's program at one of its blocks, at any depth, is an edit of that place. To remove the
block cuts it out, with all that is in it. To set an input that its type declares writes that input of that block. To
submit a block with it as the parent puts a new block at its end, if it is a container. There has to be room for
copying the program; if what comes of it can be told then the edit is answered with the block that it is about. -/
theorem edits_keep_to_their_place {s : Stage α} {actor : Int} {a : Actor α} (h : s.Editable actor a)
    (hahead : s.NamesAhead) (hnodup : (Program.ids a.program).Nodup) {block : String}
    (hblock : block ∈ Program.ids a.program) : ∃ x, Program.find? a.program block = some x ∧
    (∃ q, a.program.Removal x q ∧ (s.removeBlock actor block).stage = s.reprogram a q ∧
      (q.Tellable → (s.removeBlock actor block).result = .ok x)) ∧
    (∀ t name v, s.world.catalog.lookup x.typeId = .ok t → (t.input? name).isSome = true →
      ∃ q, a.program.Setting x name v q ∧ (s.editInput actor block name v).stage = s.reprogram a q ∧
        (q.Tellable → (s.editInput actor block name v).result = .ok { x with inputs := x.inputs.put name v })) ∧
    (∀ t typeId inputs b, s.world.catalog.lookup x.typeId = .ok t → t.isContainer = true →
      s.world.catalog.newBlock (blockName s.nextBlock) typeId inputs = .ok b →
      ∃ q, a.program.Insertion x b q ∧
        (s.submit actor typeId inputs (some block)).stage =
          ({ s with nextBlock := s.nextBlock + 1 } : Stage α).reprogram a q ∧
        (q.Tellable → (s.submit actor typeId inputs (some block)).result = .ok b)) := by
  obtain ⟨x, hx⟩ := Option.isSome_iff_exists.mp (Program.isSome_find?.mpr hblock)
  have hid : x.id = block := by simpa using List.find?_some hx
  refine ⟨x, hx, ?_, fun t name v ht hdeclared => ?_, fun t typeId inputs b ht hcontainer hb => ?_⟩
  · obtain ⟨q, hremove, hremoval⟩ := Program.remove_removal hnodup hx
    exact ⟨q, hremoval, h.editProgram hremove⟩
  · exact ⟨_, Program.setting_write a.program x name v,
      h.editProgram (hid ▸ Program.setInput_write hnodup hx ht hdeclared v)⟩
  · obtain ⟨hnamed, hchildless, -⟩ := Catalog.newBlock_fits hb
    have hnew : b.id ∉ Program.ids a.program := by
      rw [hnamed]
      exact hahead.program h.found (Nat.le_refl _)
    obtain ⟨q, happend, hinsertion⟩ := Program.append_insertion hnodup hx ht hcontainer hnew hchildless
    exact ⟨q, hinsertion, h.submit hb happend⟩

theorem knotted_edits_keep_to_their_place :
    ∃ a, knotted.Editable 1 a ∧ knotted.NamesAhead ∧ (Program.ids a.program).Nodup ∧ "b1" ∈ Program.ids a.program ∧
      ∃ x, Program.find? a.program "b1" = some x ∧
        (∃ q, a.program.Removal x q ∧ (knotted.removeBlock 1 "b1").stage = knotted.reprogram a q) ∧
        (∃ q, a.program.Setting x "times" (.int 3) q ∧
          (knotted.editInput 1 "b1" "times" (.int 3)).stage = knotted.reprogram a q) ∧
        ∃ q, a.program.Insertion x ⟨"b3", "wait", [("seconds", .int 1)], []⟩ q ∧
          (knotted.submit 1 "wait" [] (some "b1")).stage.store.programs.map Program.ids = [["b1", "b2", "b3"]] := by
  obtain ⟨a, heditable, hahead, hprogram⟩ := knotted_editable
  have hnodup : (Program.ids a.program).Nodup := by
    rw [hprogram]
    decide
  have hblock : "b1" ∈ Program.ids a.program := by
    rw [hprogram]
    decide
  obtain ⟨x, hx, ⟨q, hremoval, hremoved, -⟩, hset, hsubmit⟩ :=
    edits_keep_to_their_place heditable hahead hnodup hblock
  have htype : x.typeId = "repeat" := by
    rw [hprogram] at hx
    cases hx
    rfl
  rw [htype] at hset hsubmit
  obtain ⟨q', hsetting, hwritten, -⟩ := hset _ "times" (.int 3) rfl rfl
  obtain ⟨q'', hinsertion, -⟩ := hsubmit _ "wait" [] _ rfl rfl rfl
  exact ⟨a, heditable, hahead, hnodup, hblock, x, hx, ⟨q, hremoval, hremoved⟩, ⟨q', hsetting, hwritten⟩, q'',
    hinsertion, by decide +kernel⟩

/-- An idle actor with a program from which a block cannot be removed, although the program was made block by block
and can be told. -/
theorem ponderous_not_removed : ∃ (s : Stage Float) (a : Actor Float), Reachable s ∧ s.store.get? 1 = some a ∧
    a.runs = false ∧ (Program.ids a.program).Nodup ∧ "b150" ∈ Program.ids a.program ∧
    (s.removeBlock 1 "b150").result = .error (.noRoom .copying) ∧ (s.removeBlock 1 "b150").stage = s := by
  obtain ⟨s, a, hreachable, hfound, hidle, -, hids, hdeep⟩ := ponderous_stuck
  have hrefused : s.removeBlock 1 "b150" = s.refuse (.noRoom .copying) := by
    rw [removeBlock, Stage.editProgram, hdeep]
    rfl
  refine ⟨s, a, hreachable, hfound, hidle, ?_, ?_, ?_, ?_⟩
  · rw [hids]
    exact issued_nodup _ _
  · rw [hids]
    exact mem_issued.mpr ⟨150, by decide, by decide, rfl⟩
  · rw [hrefused]
    rfl
  · rw [hrefused]
    rfl

end Stage

end SpriteStage
