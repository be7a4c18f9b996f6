import Batchalign.Morphosyntax.Labels

/-!
# The numbers of words and tokens

The ids of the words count from 1, and the ids of the tokens are those of the words in their
order, so that a token spans consecutive words. The passes that change the number of words give
new ids, one block after the other, and keep this.
-/

namespace Batchalign.Morphosyntax

section Numbered

/-- The ids are consecutive. -/
def CountsFrom (start : ℕ) (ids : List ℕ) : Prop := ids = List.range' start ids.length

variable {start : ℕ} {ids front back : List ℕ}

theorem countsFrom_range' (length : ℕ) : CountsFrom start (List.range' start length) := by
  rw [CountsFrom, List.length_range']

theorem CountsFrom.append (first : CountsFrom start front)
    (second : CountsFrom (start + front.length) back) : CountsFrom start (front ++ back) := by
  unfold CountsFrom at *
  rw [List.length_append, ← List.range'_append_1, ← first, ← second]

theorem CountsFrom.nodup (counted : CountsFrom start ids) : ids.Nodup := by
  rw [counted]
  exact List.nodup_range'

/-- The words are numbered from 1, and the tokens go over the words in their order. -/
structure Numbered (words : List NormalizedWord) (tokens : List Token) : Prop where
  counted : CountsFrom 1 (words.map (·.id))
  spans : tokens.flatMap (·.id) = words.map (·.id)

end Numbered

section Spread

/-- Old ids that stay apart, or the number of new ids that they all get together. -/
abbrev Block := List ℕ × Option ℕ

def Block.size (block : Block) : ℕ := block.2.getD block.1.length

/-- The new ids of a block. -/
def enterBlock (nextId : ℕ) (oldToNew : List (ℕ × ℕ)) (block : Block) : List (ℕ × ℕ) :=
  block.1.zipIdx.foldl (fun ids entry =>
    dictSet entry.1 (nextId + if block.2.isNone then entry.2 else 0) ids) oldToNew

/-- The new ids of all blocks, one after the other. -/
def spread (nextId : ℕ) (oldToNew : List (ℕ × ℕ)) : List Block → List (ℕ × ℕ)
  | [] => oldToNew
  | block :: blocks => spread (nextId + block.size) (enterBlock nextId oldToNew block) blocks

/-- A block that stays has consecutive new ids, the ids of another all become the first of its
new ones. -/
def Spreads (newId : ℕ → ℕ) : ℕ → List Block → Prop
  | _, [] => True
  | nextId, block :: blocks =>
      (block.2 = none → block.1.map newId = List.range' nextId block.1.length) ∧
        (block.2 ≠ none → ∀ id ∈ block.1, newId id = nextId) ∧
        Spreads newId (nextId + block.size) blocks

variable {oldToNew : List (ℕ × ℕ)} {block : Block} {blocks : List Block} {nextId id : ℕ}

theorem lookup_enterBlock_of_notMem (absent : id ∉ block.1) :
    (enterBlock nextId oldToNew block).lookup id = oldToNew.lookup id := by
  unfold enterBlock
  apply lookup_foldl_dictSet_of_notMem
  rwa [List.zipIdx_map_fst]

theorem lookup_spread_of_notMem (absent : id ∉ blocks.flatMap Prod.fst) :
    (spread nextId oldToNew blocks).lookup id = oldToNew.lookup id := by
  induction blocks generalizing nextId oldToNew with
  | nil => rfl
  | cons block blocks ih =>
      rw [List.flatMap_cons, List.mem_append, not_or] at absent
      rw [spread, ih absent.2, lookup_enterBlock_of_notMem absent.1]

theorem lookup_enterBlock (nodup : block.1.Nodup) {offset : ℕ} (inside : offset < block.1.length) :
    (enterBlock nextId oldToNew block).lookup block.1[offset] =
      some (nextId + if block.2.isNone then offset else 0) := by
  have member : (block.1[offset], offset) ∈ block.1.zipIdx :=
    List.mk_mem_zipIdx_iff_getElem?.mpr (List.getElem?_eq_getElem inside)
  unfold enterBlock
  exact lookup_foldl_dictSet (by rwa [List.zipIdx_map_fst]) member

theorem spread_spreads (nextId : ℕ) (oldToNew : List (ℕ × ℕ))
    (nodup : (blocks.flatMap Prod.fst).Nodup) :
    Spreads (mappedId (spread nextId oldToNew blocks)) nextId blocks := by
  induction blocks generalizing nextId oldToNew with
  | nil => trivial
  | cons block blocks ih =>
      rw [List.flatMap_cons, List.nodup_append'] at nodup
      rcases nodup with ⟨own, others, apart⟩
      have here : ∀ (offset : ℕ) (inside : offset < block.1.length),
          mappedId (spread nextId oldToNew (block :: blocks)) block.1[offset] =
            nextId + if block.2.isNone then offset else 0 := by
        intro offset inside
        have absent := apart (List.getElem_mem inside)
        rw [mappedId, spread, lookup_spread_of_notMem absent, lookup_enterBlock own inside,
          Option.getD_some]
      refine ⟨fun stays => ?_, fun joined id member => ?_, ih _ _ others⟩
      · apply List.ext_getElem
        · simp
        · intro offset inMap _
          rw [List.length_map] at inMap
          rw [List.getElem_map, here offset inMap, stays, List.getElem_range']
          simp
      · rcases List.getElem_of_mem member with ⟨offset, inside, rfl⟩
        rw [here offset inside]
        simp [Option.isNone_iff_eq_none, joined]

end Spread

section Elision

theorem takeElision_ids (authoritative surface : String) (wordIds : List ℕ) (tokens : List Token) :
    (takeElision authoritative surface wordIds tokens).2.1 ++
        (takeElision authoritative surface wordIds tokens).2.2.flatMap (·.id) =
      wordIds ++ tokens.flatMap (·.id) := by
  induction tokens generalizing surface wordIds with
  | nil => rfl
  | cons token tokens ih =>
      rw [takeElision]
      split
      · rw [ih, List.flatMap_cons, List.append_assoc]
      · rfl

theorem elisionGroups_ids {authoritativeWords : List String} {tokens grouped : List Token}
    (fits : elisionGroups authoritativeWords tokens = some grouped) :
    grouped.flatMap (·.id) = tokens.flatMap (·.id) := by
  induction authoritativeWords generalizing tokens grouped with
  | nil =>
      rw [elisionGroups] at fits
      split at fits
      · rename_i empty
        cases fits
        rw [List.isEmpty_iff.mp empty]
      · cases fits
  | cons authoritative words ih =>
      cases tokens with
      | nil => cases fits
      | cons token tokens =>
          rw [elisionGroups] at fits
          split at fits
          · rcases Option.map_eq_some_iff.mp fits with ⟨later, laterFits, rfl⟩
            rw [List.flatMap_cons, ih laterFits, List.flatMap_cons]
          · split at fits
            · cases fits
            · dsimp only at fits
              split at fits
              · cases fits
              · rcases Option.map_eq_some_iff.mp fits with ⟨later, laterFits, rfl⟩
                rw [List.flatMap_cons, ih laterFits]
                exact takeElision_ids authoritative "" [] (token :: tokens)

theorem groupItalianElisionTokens_ids (tokens : List Token) (authoritativeWords : List String) :
    (groupItalianElisionTokens tokens authoritativeWords).flatMap (·.id) =
      tokens.flatMap (·.id) := by
  unfold groupItalianElisionTokens
  cases fits : elisionGroups authoritativeWords tokens with
  | none => rfl
  | some grouped => exact elisionGroups_ids fits

end Elision

section Compound

variable {oldToNew : List (ℕ × ℕ)} {oldId nextId : ℕ} {word : NormalizedWord} {token : Token}
  {rule : Option CompoundImperativeRule}

theorem expandImperative_ids :
    (expandImperative oldToNew oldId word token rule).1.map (·.id) =
      List.range' (mappedId oldToNew oldId) (1 + rule.elim 0 (·.clitics.length)) := by
  cases rule with
  | none => rfl
  | some rule =>
      have offsets : (rule.clitics.zipIdx 1).map (fun item => mappedId oldToNew oldId + item.2) =
          List.range' (mappedId oldToNew oldId + 1) rule.clitics.length := by
        rw [← List.map_add_range', ← List.zipIdx_map_snd, List.map_map]
        rfl
      rw [Option.elim_some, Nat.add_comm 1, List.range'_succ, ← offsets]
      simp only [expandImperative, List.map_cons, List.map_map]
      rfl

theorem expandImperative_token :
    (expandImperative oldToNew oldId word token rule).2.1.id =
      (expandImperative oldToNew oldId word token rule).1.map (·.id) := by
  cases rule with
  | none => rfl
  | some rule => rfl

/-- The words that come of the expansion count on. -/
theorem expandImperative_countsFrom
    {items : List (NormalizedWord × Token × Option CompoundImperativeRule)}
    (agrees : ∀ id, oldId ≤ id →
      oldToNew.lookup id = (compoundIds oldId nextId (items.map (·.2.2))).lookup id) :
    CountsFrom nextId ((items.zipIdx oldId).flatMap fun item =>
      (expandImperative oldToNew item.2 item.1.1 item.1.2.1 item.1.2.2).1.map (·.id)) := by
  induction items generalizing oldId nextId with
  | nil => rfl
  | cons item items ih =>
      have here : mappedId oldToNew oldId = nextId := by
        rw [mappedId, agrees oldId le_rfl, List.map_cons, compoundIds, List.lookup_cons_self,
          Option.getD_some]
      rw [List.zipIdx_cons, List.flatMap_cons, expandImperative_ids, here]
      apply (countsFrom_range' _).append
      rw [List.length_range', ← Nat.add_assoc]
      apply ih
      intro id later
      rw [agrees id (by omega), List.map_cons, compoundIds, List.lookup_cons,
        beq_eq_false_iff_ne.mpr (by omega)]

/-- Every word has its rule. -/
theorem map_zip_rules {words : List NormalizedWord} {tokens : List Token}
    {rules : List (Option CompoundImperativeRule)} (length : tokens.length = words.length)
    (rulesLength : rules.length = words.length) :
    (words.zip (tokens.zip rules)).map (·.2.2) = rules := by
  have inner : (tokens.zip rules).map Prod.snd = rules := List.map_snd_zip (by omega)
  have outer : (words.zip (tokens.zip rules)).map Prod.snd = tokens.zip rules :=
    List.map_snd_zip (by simp [length, rulesLength])
  calc (words.zip (tokens.zip rules)).map (·.2.2)
      = ((words.zip (tokens.zip rules)).map Prod.snd).map Prod.snd := by
        rw [List.map_map]
        rfl
    _ = rules := by rw [outer, inner]

variable [PythonText]

theorem normalizeItalianCompoundImperatives_numbered {words : List NormalizedWord}
    {tokens : List Token} (numbered : Numbered words tokens) :
    Numbered (normalizeItalianCompoundImperatives words tokens).words
      (normalizeItalianCompoundImperatives words tokens).tokens := by
  unfold normalizeItalianCompoundImperatives
  dsimp only
  split
  · exact numbered
  · rename_i touched
    have oneEach : tokens.map (·.id) = (List.range' 1 words.length).map ([·]) := by
      by_contra other
      exact touched (Or.inl other)
    have length : tokens.length = words.length := by
      simpa using congrArg List.length oneEach
    set rules := words.map fun word => ruleFor word.text word.upos with rulesDef
    have rulesLength : rules.length = words.length := List.length_map _
    have kept : (words.zip (tokens.zip rules)).map (·.2.2) = rules :=
      map_zip_rules length rulesLength
    constructor
    · rw [List.map_flatMap, List.flatMap_map]
      apply expandImperative_countsFrom
      intro id _
      rw [kept]
    · rw [List.map_flatMap, List.flatMap_map, List.flatMap_map, List.flatMap_map]
      exact List.flatMap_congr fun item _ => expandImperative_token

end Compound

section Legacy

variable {words : List NormalizedWord} {row : ItalianTokenRow} {rows : List ItalianTokenRow}
  {oldToNew : List (ℕ × ℕ)} {nextId : ℕ}

/-- A rewritten row has as many new ids as the rule has components. -/
def ItalianTokenRow.block (row : ItalianTokenRow) : Block :=
  (row.token.id, row.legacyRule.map (·.components.length))

theorem ItalianTokenRow.block_size : row.block.size = row.chunks := by
  unfold block Block.size chunks
  cases row.legacyRule with
  | none => rfl
  | some rule => rfl

theorem legacyIds_eq_spread :
    legacyIds nextId oldToNew rows = spread nextId oldToNew (rows.map (·.block)) := by
  induction rows generalizing nextId oldToNew with
  | nil => rfl
  | cons row rows ih =>
      rw [legacyIds, ih, List.map_cons, spread, ItalianTokenRow.block_size]
      simp [enterBlock, ItalianTokenRow.block]

theorem rewriteRow_ids (resolved : row.Resolved words)
    (stays : row.block.2 = none →
      row.token.id.map (mappedId oldToNew) = List.range' nextId row.token.id.length)
    (joined : row.block.2 ≠ none → ∀ id ∈ row.token.id, mappedId oldToNew id = nextId) :
    (rewriteRow oldToNew row).1.map (·.id) = List.range' nextId row.block.size := by
  cases legacy : row.legacyRule with
  | none =>
      have same : (rewriteRow oldToNew row).1 = row.words.map (renumberWord oldToNew) := by
        simp [rewriteRow, legacy]
      rw [same, ItalianTokenRow.block_size, ItalianTokenRow.chunks, legacy, Option.elim_none,
        ← stays (by simp [ItalianTokenRow.block, legacy]), ← resolved.ids, List.map_map,
        List.map_map]
      rfl
  | some rule =>
      cases native : row.words with
      | nil => exact absurd native resolved.nonempty
      | cons first rest =>
          have main : mappedId oldToNew (row.token.id.headD 0) = nextId := by
            apply joined (by simp [ItalianTokenRow.block, legacy])
            rw [← resolved.ids, native]
            exact List.mem_cons_self
          rw [ItalianTokenRow.block_size, ItalianTokenRow.chunks, legacy, Option.elim_some]
          simp only [rewriteRow, legacy, native, main, List.map_map]
          have offsets : rule.components.zipIdx.map (fun item => nextId + item.2) =
              List.range' nextId rule.components.length := by
            rw [← Nat.add_zero nextId, ← List.map_add_range', ← List.zipIdx_map_snd, List.map_map]
            rfl
          exact offsets

theorem rewriteRow_token (resolved : row.Resolved words) :
    (rewriteRow oldToNew row).2.1.id = (rewriteRow oldToNew row).1.map (·.id) := by
  unfold rewriteRow
  split
  · rfl
  · rw [List.map_map, ← resolved.ids, List.map_map]
    rfl

/-- The words of the rows count on. -/
theorem rewriteRow_countsFrom (resolved : ∀ row ∈ rows, row.Resolved words)
    (spreads : Spreads (mappedId oldToNew) nextId (rows.map (·.block))) :
    CountsFrom nextId (rows.flatMap fun row => (rewriteRow oldToNew row).1.map (·.id)) := by
  induction rows generalizing nextId with
  | nil => rfl
  | cons row rows ih =>
      rcases spreads with ⟨stays, joined, later⟩
      rw [List.flatMap_cons, rewriteRow_ids (resolved row List.mem_cons_self) stays joined]
      apply (countsFrom_range' _).append
      rw [List.length_range']
      exact ih (fun other member => resolved other (List.mem_cons_of_mem _ member)) later

variable [PythonText]

theorem normalizeItalianLegacyMwts_numbered {tokens : List Token}
    (numbered : Numbered words tokens) :
    Numbered (normalizeItalianLegacyMwts words tokens).words
      (normalizeItalianLegacyMwts words tokens).tokens := by
  unfold normalizeItalianLegacyMwts
  split
  · exact numbered
  · rename_i rows found
    split
    · exact numbered
    · rcases rows_resolved found with ⟨tokensOf, resolved⟩
      have nodup : ((rows.map (·.block)).flatMap Prod.fst).Nodup := by
        have ids : (rows.map (·.block)).flatMap Prod.fst = tokens.flatMap (·.id) := by
          rw [← tokensOf, List.flatMap_map, List.flatMap_map]
          rfl
        rw [ids, numbered.spans]
        exact numbered.counted.nodup
      constructor
      · rw [List.map_flatMap, List.flatMap_map]
        apply rewriteRow_countsFrom resolved
        rw [legacyIds_eq_spread]
        exact spread_spreads 1 [] nodup
      · rw [List.map_flatMap, List.flatMap_map, List.flatMap_map, List.flatMap_map]
        exact List.flatMap_congr fun row isRow => rewriteRow_token (resolved row isRow)

end Legacy

section Components

variable [PythonText] {words : List NormalizedWord} {tokens : List Token}

theorem normalizeItalianMwtComponents_ids (words : List NormalizedWord) (tokens : List Token) :
    (normalizeItalianMwtComponents words tokens).1.map (·.id) = words.map (·.id) := by
  unfold normalizeItalianMwtComponents
  rw [List.map_map, List.map_map]
  refine List.map_congr_left fun word _ => ?_
  simp only [Function.comp_apply]
  split
  · rfl
  · rfl

end Components

section FalseMwts

variable {words rest : List NormalizedWord} {tokens : List Token} {token : Token}
  {collapses : List (ℕ × Collapse)} {oldToNew : List (ℕ × ℕ)} {nextId id : ℕ}

/-- The words of a collapsed token get one id together. -/
def collapseBlock (collapses : List (ℕ × Collapse)) (token : Token) : Block :=
  (token.id, (token.id.head?.bind (List.lookup · collapses)).map fun _ => 1)

theorem mem_of_lookup {collapse : Collapse} (found : collapses.lookup id = some collapse) :
    (id, collapse) ∈ collapses := by
  rcases List.lookup_eq_some_iff.mp found with ⟨before, after, entries, _⟩
  simp [entries]

/-- What is collected for the tokens shares no word with another token. -/
structure Collected (tokens : List Token) (collapses : List (ℕ × Collapse)) : Prop where
  first : ∀ entry ∈ collapses, entry.2.ids.head? = some entry.1
  whole : ∀ entry ∈ collapses, ∀ token ∈ tokens, ∀ id ∈ entry.2.ids, id ∈ token.id →
    entry.2.ids = token.id

theorem Collected.of_cons (collected : Collected (token :: tokens) collapses) :
    Collected tokens collapses where
  first := collected.first
  whole entry isEntry other member := collected.whole entry isEntry other
    (List.mem_cons_of_mem _ member)

/-- The ids of a collapsed token lead to its collapse, those of another to none. -/
theorem Collected.containing (collected : Collected tokens collapses) (member : token ∈ tokens)
    (inside : id ∈ token.id) :
    (collapses.map (·.2.ids)).find? (id ∈ ·) =
      (collapseBlock collapses token).2.map fun _ => token.id := by
  have only : ∀ ids, (collapses.map (·.2.ids)).find? (id ∈ ·) = some ids → ids = token.id := by
    intro ids found
    rcases List.mem_map.mp (List.mem_of_find?_eq_some found) with ⟨entry, isEntry, rfl⟩
    have holds : id ∈ entry.2.ids := by simpa using List.find?_some found
    exact collected.whole entry isEntry token member id holds inside
  cases found : (collapses.map (·.2.ids)).find? (id ∈ ·) with
  | none =>
      have absent : ∀ entry ∈ collapses, entry.2.ids ≠ token.id := by
        intro entry isEntry same
        have notHere := List.find?_eq_none.mp found entry.2.ids (List.mem_map_of_mem isEntry)
        rw [same] at notHere
        exact notHere (by simpa using inside)
      have noCollapse : token.id.head?.bind (List.lookup · collapses) = none := by
        by_contra some_
        rcases Option.ne_none_iff_exists'.mp some_ with ⟨collapse, here⟩
        rcases Option.bind_eq_some_iff.mp here with ⟨first, isFirst, isCollapse⟩
        have entry := mem_of_lookup isCollapse
        apply absent _ entry
        apply collected.whole _ entry token member first
        · exact List.mem_of_mem_head? (collected.first _ entry)
        · exact List.mem_of_mem_head? isFirst
      simp [collapseBlock, noCollapse]
  | some ids =>
      have same := only ids found
      rcases List.mem_map.mp (List.mem_of_find?_eq_some found) with ⟨entry, isEntry, rfl⟩
      have isFirst : token.id.head? = some entry.1 := same ▸ collected.first entry isEntry
      have listed : (collapses.lookup entry.1).isSome := by
        rw [List.lookup_isSome_iff]
        exact ⟨entry, isEntry, by simp⟩
      rcases Option.isSome_iff_exists.mp listed with ⟨collapse, isCollapse⟩
      simp [collapseBlock, isFirst, isCollapse, same]

/-- No collapse starts inside of a token. -/
theorem Collected.inside (collected : Collected tokens collapses) (member : token ∈ tokens)
    {first : ℕ} {others : List ℕ} (ids : token.id = first :: others) (nodup : token.id.Nodup)
    (inside : id ∈ others) : collapses.lookup id = none := by
  by_contra some_
  rcases Option.ne_none_iff_exists'.mp some_ with ⟨collapse, isCollapse⟩
  have entry := mem_of_lookup isCollapse
  have isFirst := collected.first _ entry
  have same := collected.whole _ entry token member id (List.mem_of_mem_head? isFirst)
    (ids ▸ List.mem_cons_of_mem _ inside)
  rw [same, ids] at isFirst
  rw [ids, List.nodup_cons] at nodup
  cases isFirst
  exact nodup.1 inside

theorem collapsedIds_kept {block : List NormalizedWord}
    (apart : ∀ word ∈ block, (collapses.map (·.2.ids)).find? (word.id ∈ ·) = none) (offset : ℕ) :
    collapsedIds collapses (nextId + offset) oldToNew (block ++ rest) =
      collapsedIds collapses (nextId + (offset + block.length))
        (((block.map (·.id)).zipIdx offset).foldl
          (fun ids entry => dictSet entry.1 (nextId + entry.2) ids) oldToNew) rest := by
  induction block generalizing offset oldToNew with
  | nil => rfl
  | cons word block ih =>
      rw [List.cons_append, collapsedIds, apart word List.mem_cons_self]
      dsimp only
      rw [Nat.add_assoc, ih fun other member => apart other (List.mem_cons_of_mem _ member)]
      rw [List.length_cons, Nat.add_assoc, Nat.add_comm 1]
      rfl

/-- The words of a collapse that is already numbered are passed over. -/
theorem collapsedIds_skip {block : List NormalizedWord} {ids : List ℕ}
    (contained : ∀ word ∈ block, (collapses.map (·.2.ids)).find? (word.id ∈ ·) = some ids)
    (numbered : (oldToNew.lookup (ids.headD 0)).isSome) :
    collapsedIds collapses nextId oldToNew (block ++ rest) =
      collapsedIds collapses nextId oldToNew rest := by
  induction block with
  | nil => rfl
  | cons word block ih =>
      rw [List.cons_append, collapsedIds, contained word List.mem_cons_self]
      dsimp only
      rw [if_pos numbered, ih fun other member => contained other (List.mem_cons_of_mem _ member)]

theorem enterBlock_joined {ids : List ℕ} {size : ℕ} :
    enterBlock nextId oldToNew (ids, some size) =
      ids.foldl (fun ids oldId => dictSet oldId nextId ids) oldToNew := by
  have each : ids.zipIdx.map Prod.fst = ids := List.zipIdx_map_fst 0 ids
  conv_rhs => rw [← each]
  rw [List.foldl_map]
  rfl

theorem collapsedIds_block {block : List NormalizedWord} (collected : Collected tokens collapses)
    (member : token ∈ tokens) (ids : block.map (·.id) = token.id) (nodup : token.id.Nodup)
    (new : ∀ id ∈ token.id, oldToNew.lookup id = none) :
    collapsedIds collapses nextId oldToNew (block ++ rest) =
      collapsedIds collapses (nextId + (collapseBlock collapses token).size)
        (enterBlock nextId oldToNew (collapseBlock collapses token)) rest := by
  have contained : ∀ word ∈ block, (collapses.map (·.2.ids)).find? (word.id ∈ ·) =
      (collapseBlock collapses token).2.map fun _ => token.id := by
    intro word isWord
    apply collected.containing member
    rw [← ids]
    exact List.mem_map_of_mem isWord
  have length : block.length = token.id.length := by
    rw [← ids, List.length_map]
  cases collapse : token.id.head?.bind (List.lookup · collapses) with
  | none =>
      have kept : collapsedIds collapses (nextId + 0) oldToNew (block ++ rest) = _ :=
        collapsedIds_kept
          (fun word isWord => by simpa [collapseBlock, collapse] using contained word isWord) 0
      rw [Nat.add_zero, Nat.zero_add, ids, length] at kept
      rw [kept]
      simp [collapseBlock, collapse, enterBlock, Block.size]
  | some found =>
      have joined : (collapseBlock collapses token).2 = some 1 := by
        simp [collapseBlock, collapse]
      rw [joined, Option.map_some] at contained
      cases block with
      | nil =>
          rw [← ids] at collapse
          cases collapse
      | cons word block =>
          have first : token.id.headD 0 = word.id := by rw [← ids]; rfl
          have isNew : oldToNew.lookup (token.id.headD 0) = none := by
            apply new
            rw [← ids]
            exact List.mem_cons_self
          have entered : token.id.foldl (fun ids oldId => dictSet oldId nextId ids) oldToNew =
              enterBlock nextId oldToNew (collapseBlock collapses token) := by
            have isBlock : collapseBlock collapses token = (token.id, some 1) :=
              Prod.ext rfl joined
            rw [isBlock, enterBlock_joined]
          rw [List.cons_append, collapsedIds, contained word List.mem_cons_self]
          dsimp only
          rw [isNew, if_neg (by simp), entered, Block.size, joined, Option.getD_some]
          apply collapsedIds_skip fun other later => contained other (List.mem_cons_of_mem _ later)
          have nonempty : 0 < token.id.length := by
            rw [← ids]
            exact Nat.succ_pos _
          have own : (collapseBlock collapses token).1.Nodup := nodup
          have entry : (enterBlock nextId oldToNew (collapseBlock collapses token)).lookup
              token.id[0] = some _ := lookup_enterBlock own nonempty
          rw [List.headD_eq_head?_getD, List.head?_eq_getElem?, List.getElem?_eq_getElem nonempty,
            Option.getD_some, entry]
          rfl

theorem collapsedIds_eq_spread (collected : Collected tokens collapses)
    (ids : words.map (·.id) = tokens.flatMap (·.id)) (nodup : (tokens.flatMap (·.id)).Nodup)
    (new : ∀ id ∈ tokens.flatMap (·.id), oldToNew.lookup id = none) :
    collapsedIds collapses nextId oldToNew words =
      spread nextId oldToNew (tokens.map (collapseBlock collapses)) := by
  induction tokens generalizing words nextId oldToNew with
  | nil =>
      rw [List.map_eq_nil_iff.mp ids]
      rfl
  | cons token tokens ih =>
      rw [List.flatMap_cons] at ids nodup new
      rcases List.map_eq_append_iff.mp ids with ⟨block, rest, rfl, ofToken, ofRest⟩
      rcases List.nodup_append'.mp nodup with ⟨own, others, apart⟩
      rw [List.map_cons, spread, collapsedIds_block collected List.mem_cons_self ofToken own
        fun id inside => new id (List.mem_append_left _ inside)]
      apply ih collected.of_cons ofRest others
      intro id later
      rw [lookup_enterBlock_of_notMem fun inside => apart inside later]
      exact new id (List.mem_append_right _ later)

/-- An id that a collapse contains is one of the collapsed ids. -/
theorem mem_collapsed_of_containing {ids : List ℕ}
    (containing : (collapses.map (·.2.ids)).find? (id ∈ ·) = some ids) :
    id ∈ collapses.flatMap (·.2.ids) := by
  rcases List.mem_map.mp (List.mem_of_find?_eq_some containing) with ⟨entry, isEntry, same⟩
  refine List.mem_flatMap.mpr ⟨entry, isEntry, ?_⟩
  rw [same]
  simpa using List.find?_some containing

/-- A word of no collapse stays. -/
theorem collapseWord_of_apart {word : NormalizedWord} (collected : Collected tokens collapses)
    (apart : (collapses.map (·.2.ids)).find? (word.id ∈ ·) = none) :
    collapseWord words collapses oldToNew word = some (renumberWord oldToNew word, []) := by
  have absent : ∀ entry ∈ collapses, word.id ∉ entry.2.ids := by
    intro entry isEntry inside
    have notHere := List.find?_eq_none.mp apart entry.2.ids (List.mem_map_of_mem isEntry)
    exact notHere (by simpa using inside)
  have noCollapse : collapses.lookup word.id = none := by
    by_contra some_
    rcases Option.ne_none_iff_exists'.mp some_ with ⟨collapse, here⟩
    have entry := mem_of_lookup here
    exact absent _ entry (List.mem_of_mem_head? (collected.first _ entry))
  have notInside : word.id ∉ collapses.flatMap (·.2.ids) := by
    intro inside
    rcases List.mem_flatMap.mp inside with ⟨entry, isEntry, here⟩
    exact absent entry isEntry here
  rw [collapseWord, noCollapse]
  exact if_neg notInside

/-- The first word of a collapse stands for all of them. -/
theorem collapseWord_first (words : List NormalizedWord) (oldToNew : List (ℕ × ℕ))
    {word : NormalizedWord} {collapse : Collapse} (collected : Collected tokens collapses)
    (here : collapses.lookup word.id = some collapse) :
    ∃ rewritten, collapseWord words collapses oldToNew word = some rewritten ∧
      rewritten.1.id = mappedId oldToNew word.id := by
  refine ⟨_, by rw [collapseWord, here], ?_⟩
  have isFirst : collapse.ids.headD 0 = word.id := by
    rw [List.headD_eq_head?_getD, collected.first _ (mem_of_lookup here)]
    rfl
  have sample : ((wordById words (collapse.ids.headD 0)).getD word).id = word.id := by
    cases found : wordById words (collapse.ids.headD 0) with
    | none => rfl
    | some sample => exact (wordById_mem found).2.trans isFirst
  dsimp only
  rw [sample]

/-- The words of a block after the collapse. -/
theorem collapseWord_ids {block : List NormalizedWord} (collected : Collected tokens collapses)
    (member : token ∈ tokens) (ids : block.map (·.id) = token.id) (nodup : token.id.Nodup)
    (stays : (collapseBlock collapses token).2 = none →
      token.id.map (mappedId oldToNew) = List.range' nextId token.id.length)
    (joined : (collapseBlock collapses token).2 ≠ none →
      ∀ id ∈ token.id, mappedId oldToNew id = nextId) :
    (block.filterMap (collapseWord words collapses oldToNew)).map (·.1.id) =
      List.range' nextId (collapseBlock collapses token).size := by
  have contained : ∀ word ∈ block, (collapses.map (·.2.ids)).find? (word.id ∈ ·) =
      (collapseBlock collapses token).2.map fun _ => token.id := by
    intro word isWord
    apply collected.containing member
    rw [← ids]
    exact List.mem_map_of_mem isWord
  cases collapse : token.id.head?.bind (List.lookup · collapses) with
  | none =>
      have kept : (collapseBlock collapses token).2 = none := by simp [collapseBlock, collapse]
      have each : block.filterMap (collapseWord words collapses oldToNew) =
          block.map fun word => (renumberWord oldToNew word, []) := by
        rw [← List.filterMap_eq_map]
        refine List.filterMap_congr fun word isWord => ?_
        apply collapseWord_of_apart collected
        rw [contained word isWord, kept, Option.map_none]
      rw [each, List.map_map, Block.size, kept, Option.getD_none]
      change _ = List.range' nextId token.id.length
      rw [← stays kept, ← ids, List.map_map]
      rfl
  | some found =>
      have gone : (collapseBlock collapses token).2 = some 1 := by simp [collapseBlock, collapse]
      rw [Block.size, gone, Option.getD_some]
      cases block with
      | nil =>
          rw [← ids] at collapse
          cases collapse
      | cons word block =>
          have here : collapses.lookup word.id = some found := by
            rw [← ids] at collapse
            exact collapse
          rcases collapseWord_first words oldToNew collected here with
            ⟨rewritten, isFirst, id⟩
          have others : block.filterMap (collapseWord words collapses oldToNew) = [] := by
            rw [List.filterMap_eq_nil_iff]
            intro other later
            have notFirst : collapses.lookup other.id = none :=
              collected.inside member ids.symm nodup (List.mem_map_of_mem later)
            have inside : other.id ∈ collapses.flatMap (·.2.ids) := by
              have containing := contained other (List.mem_cons_of_mem _ later)
              rw [gone, Option.map_some] at containing
              exact mem_collapsed_of_containing containing
            rw [collapseWord, notFirst]
            exact if_pos inside
          rw [List.filterMap_cons_some isFirst, others, List.map_singleton, id]
          rw [joined (by simp [gone]) word.id (ids ▸ List.mem_cons_self)]
          rfl

theorem collapseToken_ids
    (stays : (collapseBlock collapses token).2 = none →
      token.id.map (mappedId oldToNew) = List.range' nextId token.id.length)
    (joined : (collapseBlock collapses token).2 ≠ none →
      ∀ id ∈ token.id, mappedId oldToNew id = nextId) :
    (collapseToken collapses oldToNew token).id =
      List.range' nextId (collapseBlock collapses token).size := by
  unfold collapseToken
  cases ids : token.id with
  | nil => simp [collapseBlock, ids, Block.size]
  | cons first rest =>
      dsimp only
      cases collapse : collapses.lookup first with
      | none =>
          have kept : (collapseBlock collapses token).2 = none := by
            simp [collapseBlock, ids, collapse]
          rw [if_neg (by simp), Block.size, kept, Option.getD_none, ← ids, stays kept]
          have nodup : (List.range' nextId token.id.length).reverse.Nodup :=
            List.nodup_reverse.mpr List.nodup_range'
          rw [nodup.dedup, List.reverse_reverse]
          rfl
      | some found =>
          have gone : (collapseBlock collapses token).2 = some 1 := by
            simp [collapseBlock, ids, collapse]
          rw [if_pos Option.isSome_some, Block.size, gone, Option.getD_some]
          dsimp only
          rw [joined (by simp [gone]) first (ids ▸ List.mem_cons_self)]
          rfl

/-- The words and the tokens count on. -/
theorem collapse_countsFrom (all : List NormalizedWord) (collected : Collected tokens collapses)
    (ids : words.map (·.id) = tokens.flatMap (·.id)) (nodup : (tokens.flatMap (·.id)).Nodup)
    (spreads : Spreads (mappedId oldToNew) nextId (tokens.map (collapseBlock collapses))) :
    CountsFrom nextId ((words.filterMap (collapseWord all collapses oldToNew)).map (·.1.id)) ∧
      tokens.flatMap (fun token => (collapseToken collapses oldToNew token).id) =
        (words.filterMap (collapseWord all collapses oldToNew)).map (·.1.id) := by
  induction tokens generalizing words nextId with
  | nil =>
      rw [List.map_eq_nil_iff.mp ids]
      exact ⟨rfl, rfl⟩
  | cons token tokens ih =>
      rw [List.flatMap_cons] at ids nodup
      rcases List.map_eq_append_iff.mp ids with ⟨block, rest, rfl, ofToken, ofRest⟩
      rcases List.nodup_append'.mp nodup with ⟨own, others, _⟩
      rcases spreads with ⟨stays, joined, later⟩
      rcases ih collected.of_cons ofRest others later with ⟨counted, spans⟩
      rw [List.filterMap_append, List.map_append, List.flatMap_cons, spans,
        collapseWord_ids collected List.mem_cons_self ofToken own stays joined,
        collapseToken_ids stays joined]
      refine ⟨(countsFrom_range' _).append ?_, rfl⟩
      rw [List.length_range']
      exact counted

/-- No id is in two tokens. -/
theorem token_eq_of_id {other : Token} (nodup : (tokens.flatMap (·.id)).Nodup)
    (isToken : token ∈ tokens) (isOther : other ∈ tokens) (inside : id ∈ token.id)
    (insideOther : id ∈ other.id) : token = other := by
  by_contra apart
  have symmetric : Std.Symm (Function.onFun List.Disjoint fun token : Token => token.id) :=
    ⟨fun _ _ disjoint => disjoint.symm⟩
  exact (List.nodup_flatMap.mp nodup).2.forall isToken isOther apart inside insideOther

variable [PythonText]

theorem falseMwtCollapses_collected (nodup : (tokens.flatMap (·.id)).Nodup) :
    Collected tokens (falseMwtCollapses words tokens) where
  first entry isEntry := (falseMwtCollapses_of entry isEntry).first
  whole := by
    intro entry isEntry token member id inside ofToken
    have of_ := falseMwtCollapses_of entry isEntry
    rw [of_.ids] at inside ⊢
    by_contra differ
    exact differ (congrArg Token.id (token_eq_of_id nodup of_.token member inside ofToken))

theorem normalizeItalianFalseMwts_numbered (numbered : Numbered words tokens) :
    Numbered (normalizeItalianFalseMwts words tokens).words
      (normalizeItalianFalseMwts words tokens).tokens := by
  unfold normalizeItalianFalseMwts
  dsimp only
  split
  · exact numbered
  · have nodup : (tokens.flatMap (·.id)).Nodup := numbered.spans ▸ numbered.counted.nodup
    have collected : Collected tokens (falseMwtCollapses words tokens) :=
      falseMwtCollapses_collected nodup
    rw [collapsedIds_eq_spread collected numbered.spans.symm nodup (by simp)]
    have blocks : ((tokens.map (collapseBlock (falseMwtCollapses words tokens))).flatMap
        Prod.fst).Nodup := by
      rw [List.flatMap_map]
      exact nodup
    have both := collapse_countsFrom words collected numbered.spans.symm nodup
      (spread_spreads 1 [] blocks)
    constructor
    · rw [List.map_map]
      exact both.1
    · rw [List.flatMap_map, List.map_map]
      exact both.2

end FalseMwts

section Sentence

variable {words : List NormalizedWord} {tokens : List Token}

theorem Numbered.of_ids (numbered : Numbered words tokens) {others : List NormalizedWord}
    (same : others.map (·.id) = words.map (·.id)) : Numbered others tokens where
  counted := same ▸ numbered.counted
  spans := same ▸ numbered.spans

variable [PythonText]

theorem applyEnglishCopulaProgressive_ids (words : List NormalizedWord) (tokens : List Token) :
    (applyEnglishCopulaProgressive words tokens).1.map (·.id) = words.map (·.id) := by
  have rescued : ∀ part possessor verb oldRoot : NormalizedWord,
      (words.map (rescueProgressive part possessor verb oldRoot)).map (·.id) =
        words.map (·.id) := by
    intro part possessor verb oldRoot
    rw [List.map_map]
    refine List.map_congr_left fun word _ => ?_
    simp only [Function.comp_apply, rescueProgressive]
    split_ifs <;> rfl
  unfold applyEnglishCopulaProgressive
  split
  · rfl
  · split
    · rfl
    · split
      · split
        · split
          · exact rescued _ _ _ _
          · rfl
        · rfl
      · rfl

/-- The words and tokens that are rendered are numbered. -/
theorem rewriteSentence_numbered (numbered : Numbered words tokens) (lang : String)
    (authoritativeWords : Option (List String)) :
    Numbered (rewriteSentence lang authoritativeWords words tokens).words
      (rewriteSentence lang authoritativeWords words tokens).tokens := by
  unfold rewriteSentence
  split
  · apply normalizeItalianFalseMwts_numbered
    refine Numbered.of_ids ?_ (normalizeItalianMwtComponents_ids _ _)
    apply normalizeItalianLegacyMwts_numbered
    apply normalizeItalianCompoundImperatives_numbered
    cases authoritativeWords with
    | none => exact numbered
    | some authoritative =>
        exact ⟨numbered.counted, (groupItalianElisionTokens_ids _ _).trans numbered.spans⟩
  · split
    · exact numbered.of_ids (applyEnglishCopulaProgressive_ids words tokens)
    · exact numbered

theorem normalizeWords_ids {rawWords : List StanzaWord}
    (ids : rawWords.map (·.id) = (List.range' 1 rawWords.length).map some) :
    (normalizeWords rawWords).1.map (·.id) = List.range' 1 rawWords.length := by
  unfold normalizeWords
  apply List.ext_getElem
  · simp
  · intro place _ inside
    rw [List.length_range'] at inside
    have given : rawWords[place].id = some (1 + place) := by
      have entry := congrArg (·[place]?) ids
      simpa [inside] using entry
    simp [normalizeWord, repairId, given]

end Sentence

end Batchalign.Morphosyntax
