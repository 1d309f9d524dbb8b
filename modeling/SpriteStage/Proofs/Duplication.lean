import SpriteStage.Proofs.Editability
/-! # Duplicated blocks -/
namespace SpriteStage

variable {α : Type}

namespace Program

/-- The second program is the first with a copy of a block, whose names are those from `first` on. -/
structure Duplicated (p : Program α) (source clone : Block α) (first : Nat) (q : Program α) : Prop where
  placed : Grafts (fun b => [b, clone]) source p q
  /-- Everywhere in it, the copy has the shape, the types and the inputs of the block. -/
  alike : clone.nameless = source.nameless
  named : ids [clone] = issued first (first + source.size)
  listed : ∃ before after, entries p = before ++ entries [source] ++ after ∧
    entries q = before ++ entries [source] ++ entries [clone] ++ after
  /-- What is found under an old name is what was found before, apart from the blocks inside it if the copy is
  somewhere among them. -/
  found : ∀ name ∈ ids p, find? q name = find? p name ∨ ∃ b cs, find? p name = some b ∧
    find? q name = some { b with children := cs } ∧ Grafts (fun b => [b, clone]) source b.children cs

variable {p : Program α} {block : String} {n : Nat}

theorem duplicate_duplicated (hblock : block ∈ ids p) (hahead : ∀ i, n ≤ i → blockName i ∉ ids p) :
    ∃ source clone q, find? p block = some source ∧ p.duplicate block n = .ok (q, clone, n + source.size) ∧
      p.Duplicated source clone n q := by
  obtain ⟨source, hsource⟩ := Option.isSome_iff_exists.mp (isSome_find?.mpr hblock)
  have hlocate : p.locate block = .ok source := by rw [locate, hsource]
  obtain ⟨halike, hnext⟩ := renamed_alike.1 source n
  obtain ⟨-, hnames, -⟩ := (renamed_spec ⟨[]⟩).1 source n
  rw [hnext] at hnames
  obtain ⟨q, hedit⟩ := edit_isOk hsource fun b => [b, (source.renamed n).1]
  obtain ⟨x, hx, hgraft⟩ := edit_eq_ok hedit
  cases locate_unique hlocate hx
  have hduplicate : p.duplicate block n = .ok (q, (source.renamed n).1, n + source.size) := by
    rw [duplicate, hlocate, ← hnext]
    change (p.edit block _).bind _ = _
    rw [hedit]
    rfl
  generalize (source.renamed n).1 = clone at *
  refine ⟨source, clone, q, hsource, hduplicate, hgraft, halike, hnames, ?_, fun name hname => ?_⟩
  · obtain ⟨before, after, hbefore, hafter⟩ := hgraft.listing
    refine ⟨before, after, hbefore, ?_⟩
    rw [hafter, ← List.singleton_append, entries_append]
    simp only [List.append_assoc]
  · apply hgraft.find?
    have hother : name ∉ ids [clone] := by
      intro hmem
      rw [hnames] at hmem
      obtain ⟨i, hle, -, rfl⟩ := mem_issued.mp hmem
      exact hahead i hle hname
    rw [← List.singleton_append, find?_append, find?_of_absent hother, Option.or_none]

end Program

namespace Stage

variable [Scalar α]

/-- A block of an idle actor's program, at any depth, is duplicated in place, and nothing else is changed on the
stage. The names of the copy are not in use anywhere. There has to be room for copying the program; if what comes of
it can be told then the copy is given back. -/
theorem duplicate_copies {s : Stage α} {actor : Int} {a : Actor α} (h : s.Editable actor a) (hahead : s.NamesAhead)
    {block : String} (hblock : block ∈ Program.ids a.program) :
    ∃ source clone q, Program.find? a.program block = some source ∧
      a.program.Duplicated source clone s.nextBlock q ∧
      (s.duplicate actor block).stage =
        ({ s with nextBlock := s.nextBlock + source.size } : Stage α).reprogram a q ∧
      (q.Tellable → (s.duplicate actor block).result = .ok clone) ∧
      (Program.ids [clone]).Nodup ∧ ∀ name ∈ Program.ids [clone], name ∉ s.store.blockIds := by
  obtain ⟨source, clone, q, hsource, hduplicate, hduplicated⟩ :=
    Program.duplicate_duplicated hblock fun i hi => hahead.program h.found hi
  obtain ⟨hstage, hresult⟩ := h.duplicate hduplicate
  refine ⟨source, clone, q, hsource, hduplicated, hstage, hresult, ?_, fun name hname => ?_⟩
  · rw [hduplicated.named]
    exact issued_nodup _ _
  · rw [hduplicated.named] at hname
    obtain ⟨i, hle, -, rfl⟩ := mem_issued.mp hname
    exact hahead i hle

theorem knotted_duplicate_copies :
    ∃ a, knotted.Editable 1 a ∧ knotted.NamesAhead ∧ "b1" ∈ Program.ids a.program ∧
      ∃ source clone q, Program.find? a.program "b1" = some source ∧ a.program.Duplicated source clone 3 q ∧
        (knotted.duplicate 1 "b1").stage.store.programs.map Program.ids = [["b1", "b2", "b3", "b4"]] := by
  obtain ⟨a, heditable, hahead, hprogram⟩ := knotted_editable
  have hblock : "b1" ∈ Program.ids a.program := by
    rw [hprogram]
    decide
  obtain ⟨source, clone, q, hsource, hduplicated, -⟩ := duplicate_copies heditable hahead hblock
  have hnext : knotted.nextBlock = 3 := by decide +kernel
  rw [hnext] at hduplicated
  exact ⟨a, heditable, hahead, hblock, source, clone, q, hsource, hduplicated, by decide +kernel⟩

/-- An idle actor with a program in which no block can be duplicated, although the program was made block by block
and can be told. -/
theorem ponderous_not_duplicated : ∃ (s : Stage Float) (a : Actor Float), Reachable s ∧ s.store.get? 1 = some a ∧
    a.runs = false ∧ (Program.ids a.program).Nodup ∧ a.program.Tellable ∧ "b151" ∈ Program.ids a.program ∧
    (s.duplicate 1 "b151").result = .error (.noRoom .copying) ∧ (s.duplicate 1 "b151").stage = s := by
  obtain ⟨s, a, hreachable, hfound, hidle, hprogram, hids, hdeep⟩ := ponderous_stuck
  have htellable : (nested 1 [ponderous] 150).Tellable := by decide +kernel
  have hrefused : s.duplicate 1 "b151" = s.refuse (.noRoom .copying) := by
    rw [duplicate, hdeep]
    rfl
  refine ⟨s, a, hreachable, hfound, hidle, ?_, hprogram ▸ htellable, ?_, ?_, ?_⟩
  · rw [hids]
    exact issued_nodup _ _
  · rw [hids]
    exact mem_issued.mpr ⟨151, by decide, by decide, rfl⟩
  · rw [hrefused]
    rfl
  · rw [hrefused]
    rfl

end Stage

end SpriteStage
