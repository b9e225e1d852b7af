import ApiScaffold.Proofs.Registration.Order
import ApiScaffold.Proofs.Text.LineEnds

/-! Registrations in texts whose lines end with carriage returns. The carriage return behind
a marker keeps the entries below it from being seen, so a new entry comes in front of them
and not behind. The outcome is that of the plain text only if the entries there are the new
ones themselves. -/
namespace ApiScaffold.Anchor
variable {a b : Anchor} {name : String} {entry : List Char} {rows rows' : List (List Char)}

/-- Lines with new entries directly below the marker, in front of those that stand there. -/
def addFirst (a : Anchor) (new lines : List (List Char)) : List (List Char) :=
  Text.insertBelow (Text.occurs a.marker.toList) (fun _ => false) new lines

/-- The entries that stand directly below the marker. -/
def entriesIn (a : Anchor) (lines : List (List Char)) : List (List Char) :=
  Text.runBelow (Text.occurs a.marker.toList) a.lead.isPrefixOf lines

def OnceIn (a : Anchor) (s : List Char) : Prop :=
  ∃ before after, Text.cut a.marker.toList s = some (before, after) ∧ ¬ a.marker.toList <:+: after

/-- Rows in which an entry has been put on a line of its own behind the first row with the marker,
which the marker ends. -/
def PutBehind (a : Anchor) (entry : List Char) (rows rows' : List (List Char)) : Prop :=
  ∃ above indent below, (∀ row ∈ above, ¬ a.marker.toList <:+: row) ∧
    (∀ c ∈ indent, c = ' ' ∨ c = '\t') ∧ rows = above ++ (indent ++ a.marker.toList) :: below ∧
    rows' = above ++ (indent ++ a.marker.toList ++ '\n' :: entry) :: below

theorem StandsAlone.exists_putBehind (h : a.StandsAlone rows) (entry : List Char) :
    ∃ rows', a.PutBehind entry rows rows' := by
  obtain ⟨indent, hfind, hindent⟩ := h
  obtain ⟨-, above, below, rfl, habove⟩ := List.find?_eq_some_iff_append.1 hfind
  refine ⟨_, above, indent, below, fun row hrow => ?_, hindent, rfl, rfl⟩
  rw [← Text.occurs_eq_false_iff]
  simpa using habove row hrow

theorem StandsAlone.infix_intercalate (h : a.StandsAlone rows) (between : List Char) :
    a.marker.toList <:+: between.intercalate rows := by
  obtain ⟨indent, hfind, -⟩ := h
  exact (List.suffix_append indent _).isInfix.trans
    (Text.infix_intercalate between (List.mem_of_find?_eq_some hfind))

/-- In rows with carriage returns and line feeds between them an insertion puts the entry behind the
marker's row. -/
theorem PutBehind.insert (h : a.PutBehind entry rows rows')
    (ha : a.IsComment) (hret : '\r' ∉ a.marker.toList) (hr : a.render name = .ok entry) :
    a.insert name (['\r', '\n'].intercalate rows) = .ok (['\r', '\n'].intercalate rows') := by
  obtain ⟨above, indent, below, habove, hindent, rfl, rfl⟩ := h
  have hcut : Text.cut a.marker.toList
      (['\r', '\n'].intercalate (above ++ (indent ++ a.marker.toList) :: below)) =
      some (above.flatMap (· ++ ['\r', '\n']) ++ indent, below.flatMap (['\r', '\n'] ++ ·)) := by
    have hends : ∀ c ∈ ['\r', '\n'], c ∉ a.marker.toList := by simpa using ⟨hret, ha.marker⟩
    rw [Text.intercalate_append_cons, List.append_assoc,
      Text.cut_flatMap (List.cons_ne_nil _ _) hends habove,
      cut_indented ha hindent, Option.map_some]
  have hhead : (below.flatMap (['\r', '\n'] ++ ·)).head? ≠ some '\n' := by
    cases below <;> simp
  rw [insert_eq hr, place_of_cut hcut hhead, Text.intercalate_append_cons]
  simp [putAt]

/-- In the lines of the rows the entry comes directly below the marker. -/
theorem PutBehind.lines (h : a.PutBehind entry rows rows') (ha : a.IsComment) (he : '\n' ∉ entry) :
    rows'.flatMap (Text.segments '\n') =
      a.addFirst [entry] (rows.flatMap (Text.segments '\n')) := by
  obtain ⟨above, indent, below, habove, hindent, rfl, rfl⟩ := h
  have hline : '\n' ∉ indent ++ a.marker.toList := by
    rw [List.mem_append, not_or]
    exact ⟨not_mem_indent hindent (by decide), ha.marker⟩
  have hfree : ∀ l ∈ above.flatMap (Text.segments '\n'), Text.occurs a.marker.toList l = false := by
    intro l hl
    obtain ⟨row, hrow, hl⟩ := List.mem_flatMap.1 hl
    rw [Text.occurs_eq_false_iff]
    exact fun hin => habove row hrow ((Text.infix_iff_exists_line ha.marker).2 ⟨l, hl, hin⟩)
  have hmark := Route.occurs_indented indent a.marker.toList
  rw [addFirst, List.flatMap_append, List.flatMap_append, List.flatMap_cons, List.flatMap_cons,
    Text.segments_append_cons hline, Text.segments_of_not_mem he, Text.segments_of_not_mem hline,
    List.singleton_append, Text.insertBelow_append_cons _ _ hfree hmark, Text.extendRun_false]
  rfl

theorem PutBehind.ne_nil (h : a.PutBehind entry rows rows') : rows' ≠ [] := by
  obtain ⟨above, indent, below, -, -, -, rfl⟩ := h
  simp

theorem PutBehind.not_mem {c : Char} (h : a.PutBehind entry rows rows') (hc : c ≠ '\n')
    (he : c ∉ entry) (hrows : ∀ row ∈ rows, c ∉ row) : ∀ row ∈ rows', c ∉ row := by
  obtain ⟨above, indent, below, -, -, rfl, rfl⟩ := h
  intro row hrow
  simp only [List.mem_append, List.mem_cons] at hrow
  rcases hrow with hrow | rfl | hrow
  · exact hrows row (by simp [hrow])
  · have hmarker := hrows (indent ++ a.marker.toList) (by simp)
    rw [List.mem_append, List.mem_cons, not_or, not_or]
    exact ⟨hmarker, hc, he⟩
  · exact hrows row (by simp [hrow])

theorem PutBehind.standsAlone (h : a.PutBehind entry rows rows') (hb : b.IsComment)
    (hm : ¬ b.marker.toList <:+: a.marker.toList) (he : ¬ b.marker.toList <:+: entry)
    (hs : b.StandsAlone rows) : b.StandsAlone rows' := by
  obtain ⟨above, indent, below, -, hindent, rfl, rfl⟩ := h
  obtain ⟨indent', hfind, hindent'⟩ := hs
  refine ⟨indent', ?_, hindent'⟩
  have hold := Route.not_occurs_indented hb.slash hm hindent
  have hnew : Text.occurs b.marker.toList (indent ++ a.marker.toList ++ '\n' :: entry) = false := by
    rw [Text.occurs_eq_false_iff, Text.infix_append_cons_iff hb.marker, not_or]
    exact ⟨Text.occurs_eq_false_iff.1 hold, he⟩
  rw [List.find?_append, List.find?_cons, hold] at hfind
  rw [List.find?_append, List.find?_cons, hnew]
  exact hfind

end ApiScaffold.Anchor

namespace ApiScaffold.Route
variable {s : List Char} {lines : List (List Char)} {name : String}

/-- New entries come to the same place in front of those that stand below the markers and behind
them if they are equal to all of these. -/
theorem Ready.addBelow_eq_addFirst_iff (h : Ready lines) (hn : Fit name) :
    usualCalls.addBelow [callLine name] (usualImports.addBelow [importLine name] lines) =
        usualCalls.addFirst [callLine name] (usualImports.addFirst [importLine name] lines) ↔
      (∀ l ∈ usualImports.entriesIn lines, l = importLine name) ∧
        ∀ l ∈ usualCalls.entriesIn lines, l = callLine name := by
  obtain ⟨m, m', hfind, hfind', hother, hother', hcall, himport⟩ := h.marked
  exact Text.insertBelow_eq_insertBelow_iff hfind hfind' hother hother' hcall himport
    (Text.occurs_eq_false_iff.2 hn.markerFree.2.1) (Text.occurs_eq_false_iff.2 hn.markerFree.1.2)

theorem return_not_mem_importLine (h : '\r' ∉ name.toList) : '\r' ∉ importLine name := by
  simp only [importLine, List.mem_append, not_or]
  exact ⟨by decide, h, by decide, h, by decide⟩

theorem return_not_mem_callLine (h : '\r' ∉ name.toList) : '\r' ∉ callLine name := by
  simp only [callLine, List.mem_append, not_or]
  exact ⟨by decide, h, by decide⟩

/-- One registration in a text, and in the same text with carriage returns: there the new
entries come first. -/
theorem register_withReturns (file : String) (h : Ready (Text.segments '\n' s))
    (hs : '\r' ∉ s) (hn : Fit name) (hname : '\r' ∉ name.toList) :
    ∃ t u, register file usualImports.marker usualCalls.marker name s = .ok t ∧
      register file usualImports.marker usualCalls.marker name (Text.withReturns s) = .ok u ∧
      Text.segments '\n' (Text.withoutReturns u) = usualCalls.addFirst [callLine name]
        (usualImports.addFirst [importLine name] (Text.segments '\n' s)) ∧
      (Text.withoutReturns u = t ↔
        (∀ l ∈ usualImports.entriesIn (Text.segments '\n' s), l = importLine name) ∧
        ∀ l ∈ usualCalls.entriesIn (Text.segments '\n' s), l = callLine name) := by
  obtain ⟨t, ht, hlines⟩ :=
    register_lines file h (by simp : ∀ n ∈ ([] : List String), Fit n) hn (registered_nil _).symm
  rw [List.nil_append] at hlines
  obtain ⟨rows, himport⟩ := h.1.exists_putBehind (importLine name)
  have hi := himport.insert usualImports_isComment (by decide) (render_importEntry _ name)
  have halone : usualCalls.StandsAlone rows :=
    himport.standsAlone usualCalls_isComment (by decide) hn.markerFree.2.1 h.2
  obtain ⟨rows', hcall⟩ := halone.exists_putBehind (callLine name)
  have hc := hcall.insert usualCalls_isComment (by decide) (render_callEntry _ name)
  have hreturns : ∀ row ∈ rows', '\r' ∉ row := by
    refine hcall.not_mem (by decide) (return_not_mem_callLine hname)
      (himport.not_mem (by decide) (return_not_mem_importLine hname) fun l hl hm => hs ?_)
    rw [← Text.intercalate_segments s]
    exact (Text.infix_intercalate _ hl).mem hm
  have hfirst : Text.segments '\n' (Text.withoutReturns (['\r', '\n'].intercalate rows')) =
      usualCalls.addFirst [callLine name]
      (usualImports.addFirst [importLine name] (Text.segments '\n' s)) := by
    rw [Text.segments_withoutReturns hcall.ne_nil hreturns,
      hcall.lines usualCalls_isComment (not_mem_callLine hn.1),
      himport.lines usualImports_isComment (not_mem_importLine hn.1), Text.flatMap_segments]
  refine ⟨t, _, ht, ?_, hfirst, ?_⟩
  · rw [Text.withReturns_eq,
      register_of_occurs file name (h.1.infix_intercalate _) (h.2.infix_intercalate _), hi]
    exact hc
  · rw [← h.addBelow_eq_addFirst_iff hn, ← Text.segments_injective.eq_iff, hfirst, hlines, eq_comm]
    rfl

/-- A registration of a fit name in a file in which both markers stand alone, and in the same
file with carriage returns. In the second the new entries come directly below the markers. Apart
from the carriage returns both files are the same if all entries that stood there are the new
ones, and only then. -/
theorem registerIn_withReturns_iff {w : Workspace}
    {file : Path} {c : String} (hc : Work.readText file w = .ok c w)
    (himports : usualImports.AloneIn c.toList) (hcalls : usualCalls.AloneIn c.toList)
    (hreturns : '\r' ∉ c.toList) (hn : Fit name) (hname : '\r' ∉ name.toList) : ∃ t w₁ u w₂ w₃,
      registerIn file name usualImports.marker usualCalls.marker w = .ok t w₁ ∧
      Work.readText file w₁ = .ok t w₁ ∧
      Work.writeText file (String.ofList (Text.withReturns c.toList)) w = .ok () w₂ ∧
      registerIn file name usualImports.marker usualCalls.marker w₂ = .ok u w₃ ∧
      Work.readText file w₃ = .ok u w₃ ∧
      Text.segments '\n' (Text.withoutReturns u.toList) = usualCalls.addFirst [callLine name]
        (usualImports.addFirst [importLine name] (Text.segments '\n' c.toList)) ∧
      (Text.withoutReturns u.toList = t.toList ↔
        (∀ l ∈ usualImports.entriesIn (Text.segments '\n' c.toList), l = importLine name) ∧
          ∀ l ∈ usualCalls.entriesIn (Text.segments '\n' c.toList), l = callLine name) := by
  obtain ⟨-, l, hr, hl⟩ := Work.readText_eq_ok_iff.1 hc
  have hready : Ready (Text.segments '\n' c.toList) :=
    ⟨himports.standsAlone usualImports_isComment, hcalls.standsAlone usualCalls_isComment⟩
  obtain ⟨t, u, ht, hu, hfirst, hiff⟩ := register_withReturns file.name hready hreturns hn hname
  obtain ⟨w₁, hrun, -, -, hread⟩ := registerIn_of_ok hr hl ht
  obtain ⟨tree, hwrite, hget⟩ :=
    Work.writeText_of_reaches hr (by simp [hl]) (FileTree.get?_dropLast hl)
    (String.ofList (Text.withReturns c.toList))
  obtain ⟨-, l', hr', hl'⟩ := Work.readText_eq_ok_iff.1 (Work.readText_of_writeText hwrite)
  obtain ⟨w₃, hrun', -, -, hread'⟩ := registerIn_of_ok hr' hl' (by rwa [String.toList_ofList])
  exact ⟨_, w₁, _, _, w₃, hrun, hread, hwrite, hrun', hread', by simpa using hfirst,
    by simpa using hiff⟩

def oneRegistered : String :=
  "// <prustbowo:routes>\n// <prustbowo:imports>\nuse crate::app::domain::a::handler::register_a_routes;"

theorem oneRegistered_cut :
    Text.cut usualImports.marker.toList oneRegistered.toList =
        some ("// <prustbowo:routes>\n".toList, '\n' :: importLine "a") ∧
      Text.cut usualCalls.marker.toList oneRegistered.toList =
        some ([], "\n// <prustbowo:imports>\n".toList ++ importLine "a") := by
  decide

theorem oneRegistered_alone :
    usualImports.AloneIn oneRegistered.toList ∧ usualCalls.AloneIn oneRegistered.toList := by
  obtain ⟨himports, hcalls⟩ := oneRegistered_cut
  constructor
  · exact ⟨"// <prustbowo:routes>\n".toList, [], '\n' :: importLine "a", himports, .inr (by decide),
      by simp, .inr rfl⟩
  · exact ⟨[], [], "\n// <prustbowo:imports>\n".toList ++ importLine "a", hcalls, .inl rfl, by simp,
      .inr (by decide)⟩

theorem oneRegistered_entries :
    usualImports.entriesIn (Text.segments '\n' oneRegistered.toList) = [importLine "a"] ∧
      usualCalls.entriesIn (Text.segments '\n' oneRegistered.toList) = [] := by
  have hlines : Text.segments '\n' oneRegistered.toList =
      ["// <prustbowo:routes>".toList, "// <prustbowo:imports>".toList, importLine "a"] := by decide
  rw [hlines]
  decide

theorem registerIn_withReturns_again :
    ∃ w, Work.readText ⟨.here, ["route.rs"]⟩ w = .ok oneRegistered w ∧ ∃ t w₁ u w₂ w₃,
      registerIn ⟨.here, ["route.rs"]⟩ "a" usualImports.marker usualCalls.marker w = .ok t w₁ ∧
      Work.writeText ⟨.here, ["route.rs"]⟩
        (String.ofList (Text.withReturns oneRegistered.toList)) w = .ok () w₂ ∧
      registerIn ⟨.here, ["route.rs"]⟩ "a" usualImports.marker usualCalls.marker w₂ = .ok u w₃ ∧
      Text.withoutReturns u.toList = t.toList := by
  obtain ⟨w, hw⟩ := exists_routeFile oneRegistered
  have hfit : Fit "a" := by
    unfold Fit
    decide
  obtain ⟨t, w₁, u, w₂, w₃, hrun, -, hwrite, hrun', -, -, hsame⟩ := registerIn_withReturns_iff hw
    oneRegistered_alone.1 oneRegistered_alone.2 (by decide) hfit (by decide)
  refine ⟨w, hw, t, w₁, u, w₂, w₃, hrun, hwrite, hrun', hsame.2 ?_⟩
  simp [oneRegistered_entries.1, oneRegistered_entries.2]

/-- Not every registration comes to the same with carriage returns: here another domain is
registered already. -/
theorem not_forall_withReturns : ¬ ∀ (file name : String) (s : List Char), usualImports.AloneIn s →
    usualCalls.AloneIn s → usualImports.OnceIn s → usualCalls.OnceIn s → '\r' ∉ s → Fit name →
    '\r' ∉ name.toList → ∃ t u,
      register file usualImports.marker usualCalls.marker name s = .ok t ∧
      register file usualImports.marker usualCalls.marker name (Text.withReturns s) = .ok u ∧
      Text.withoutReturns u = t := by
  intro h
  obtain ⟨himports, hcalls⟩ := oneRegistered_alone
  have hfit : Fit "b" := by
    unfold Fit
    decide
  have hreturn : '\r' ∉ oneRegistered.toList := by decide
  have himport : usualImports.OnceIn oneRegistered.toList :=
    ⟨_, _, oneRegistered_cut.1, Text.occurs_eq_false_iff.1 (by decide)⟩
  have hcall : usualCalls.OnceIn oneRegistered.toList :=
    ⟨_, _, oneRegistered_cut.2, Text.occurs_eq_false_iff.1 (by decide)⟩
  obtain ⟨t, u, ht, hu, hsame⟩ :=
    h "route.rs" "b" oneRegistered.toList himports hcalls himport hcall hreturn hfit (by decide)
  have hready : Ready (Text.segments '\n' oneRegistered.toList) :=
    ⟨himports.standsAlone usualImports_isComment, hcalls.standsAlone usualCalls_isComment⟩
  obtain ⟨t', u', ht', hu', -, hiff⟩ :=
    register_withReturns "route.rs" hready hreturn hfit (by decide)
  obtain rfl := Except.ok.inj (ht.symm.trans ht')
  obtain rfl := Except.ok.inj (hu.symm.trans hu')
  have hother : importLine "a" = importLine "b" :=
    (hiff.1 hsame).1 _ (by simp [oneRegistered_entries.1])
  exact absurd hother (by decide)

end ApiScaffold.Route
