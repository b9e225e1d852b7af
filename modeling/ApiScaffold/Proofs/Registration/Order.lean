import ApiScaffold.Proofs.Registration.Lines
import ApiScaffold.Proofs.Registration.RouteFile
import ApiScaffold.Settings.Basic

/-! The order of registrations. In a route file in which the usual markers stand alone, the imports
of all names stand below the one marker and the calls below the other, in the order of the
registrations, and every line stays. -/
namespace ApiScaffold.Route
variable {s : List Char} {lines : List (List Char)} {name : String} {done names : List String}

/-- The anchors of a route file for the markers that hold where the settings name no others. -/
abbrev usualImports : Anchor := importAnchor ({} : Settings.Markers).imports

@[inherit_doc usualImports]
abbrev usualCalls : Anchor := callAnchor ({} : Settings.Markers).routes

/-- Both markers stand alone in the lines. -/
def Ready (lines : List (List Char)) : Prop :=
  usualImports.StandsAlone lines ∧ usualCalls.StandsAlone lines

/-- A name of one line in which neither marker occurs. -/
def Fit (name : String) : Prop :=
  '\n' ∉ name.toList ∧ ¬ usualImports.marker.toList <:+: name.toList ∧
  ¬ usualCalls.marker.toList <:+: name.toList

/-- Lines with names registered, the first name first. -/
def registered (names : List String) (lines : List (List Char)) : List (List Char) :=
  usualCalls.addBelow (names.map callLine) (usualImports.addBelow (names.map importLine) lines)

theorem registered_nil (lines : List (List Char)) : registered [] lines = lines := by
  unfold registered Anchor.addBelow
  rw [List.map_nil, List.map_nil, Text.insertBelow_nil, Text.insertBelow_nil]

theorem usualImports_isComment : usualImports.IsComment where
  marker := by decide
  slash := by decide
  lead := by rw [lead_import]; decide
  shared := by rw [lead_import]; decide

theorem usualCalls_isComment : usualCalls.IsComment where
  marker := by decide
  slash := by decide
  lead := by rw [lead_call]; decide
  shared := by rw [lead_call]; decide

theorem not_mem_importLine (h : '\n' ∉ name.toList) : '\n' ∉ importLine name := by
  simp only [importLine, List.mem_append, not_or]
  exact ⟨by decide, h, by decide, h, by decide⟩

theorem not_mem_callLine (h : '\n' ∉ name.toList) : '\n' ∉ callLine name := by
  simp only [callLine, List.mem_append, not_or]
  exact ⟨by decide, h, by decide⟩

/-- A text that starts with a slash, ends with a bracket and has no `h` occurs in an import only if
it does in the name. -/
theorem not_infix_importLine {m : List Char} (hslash : m.head? = some '/')
    (hlast : m.getLast? = some '>') (hh : 'h' ∉ m) (hname : ¬ m <:+: name.toList) :
    ¬ m <:+: importLine name := by
  have hsplit : importLine name = (importLead ++ (name.toList ++ "::".toList)) ++
      'h' :: ("andler::register_".toList ++ (name.toList ++ "_routes;".toList)) := by
    have hmiddle : "::handler::register_".toList =
        "::".toList ++ 'h' :: "andler::register_".toList := by
      decide
    rw [importLine, hmiddle]
    simp only [List.append_assoc, List.cons_append]
  rw [hsplit, Text.infix_append_cons_iff hh]
  rintro (h | h)
  · have := Text.infix_of_infix_append hslash (by decide) h
    exact hname (Text.infix_of_append_infix hlast (by decide) this)
  · have := Text.infix_of_infix_append hslash (by decide) h
    exact hname (Text.infix_of_append_infix hlast (by decide) this)

theorem not_infix_callLine {m : List Char} (hslash : m.head? = some '/')
    (hlast : m.getLast? = some '>') (hname : ¬ m <:+: name.toList) : ¬ m <:+: callLine name := by
  intro h
  have := Text.infix_of_infix_append hslash (by decide) h
  exact hname (Text.infix_of_append_infix hlast (by decide) this)

theorem Fit.markerFree (h : Fit name) :
    (¬ usualImports.marker.toList <:+: importLine name ∧
      ¬ usualImports.marker.toList <:+: callLine name) ∧
      ¬ usualCalls.marker.toList <:+: importLine name ∧
      ¬ usualCalls.marker.toList <:+: callLine name := by
  obtain ⟨-, hi, hc⟩ := h
  exact ⟨⟨not_infix_importLine (by decide) (by decide) (by decide) hi,
    not_infix_callLine (by decide) (by decide) hi⟩,
    not_infix_importLine (by decide) (by decide) (by decide) hc,
    not_infix_callLine (by decide) (by decide) hc⟩

theorem Ready.addBelow (a : Anchor) {new : List (List Char)} (h : Ready lines)
    (hnew : ∀ l ∈ new, ¬ usualImports.marker.toList <:+: l ∧ ¬ usualCalls.marker.toList <:+: l) :
    Ready (a.addBelow new lines) :=
  ⟨h.1.addBelow a fun l hl => (hnew l hl).1, h.2.addBelow a fun l hl => (hnew l hl).2⟩

theorem Ready.addImports (h : Ready lines) (hn : ∀ n ∈ names, Fit n) :
    Ready (usualImports.addBelow (names.map importLine) lines) := by
  refine h.addBelow _ fun l hl => ?_
  obtain ⟨n, hm, rfl⟩ := List.mem_map.1 hl
  exact ⟨(hn n hm).markerFree.1.1, (hn n hm).markerFree.2.1⟩

theorem Ready.addCalls (h : Ready lines) (hn : ∀ n ∈ names, Fit n) :
    Ready (usualCalls.addBelow (names.map callLine) lines) := by
  refine h.addBelow _ fun l hl => ?_
  obtain ⟨n, hm, rfl⟩ := List.mem_map.1 hl
  exact ⟨(hn n hm).markerFree.1.2, (hn n hm).markerFree.2.2⟩

theorem Ready.registered (h : Ready lines) (hn : ∀ n ∈ names, Fit n) :
    Ready (registered names lines) :=
  (h.addImports hn).addCalls hn

theorem not_isPrefixOf_indented {lead indent m : List Char}
    (hslash : '/' ∉ lead) (hm : m.head? = some '/')
    (hsolid : ∃ c ∈ lead, c ≠ ' ' ∧ c ≠ '\t') (hindent : ∀ c ∈ indent, c = ' ' ∨ c = '\t') :
    lead.isPrefixOf (indent ++ m) = false := by
  rw [← Bool.not_eq_true, List.isPrefixOf_iff_prefix]
  intro h
  obtain ⟨c, hc, hspace, htab⟩ := hsolid
  rcases List.prefix_or_prefix_of_prefix h (List.prefix_append indent m) with hp | ⟨t, rfl⟩
  · rcases hindent c (hp.mem hc) with he | he
    · exact hspace he
    · exact htab he
  · rw [List.prefix_append_right_inj] at h
    cases t with
    | nil =>
      rw [List.append_nil] at hc
      rcases hindent c hc with he | he
      · exact hspace he
      · exact htab he
    | cons d t =>
      obtain ⟨r, hr⟩ := h
      rw [← hr] at hm
      obtain rfl : d = '/' := by simpa using hm
      simp at hslash

theorem not_occurs_indented {p m indent : List Char} (hp : p.head? = some '/') (hm : ¬ p <:+: m)
    (hindent : ∀ c ∈ indent, c = ' ' ∨ c = '\t') : Text.occurs p (indent ++ m) = false := by
  rw [Text.occurs_eq_false_iff]
  exact fun h => hm (Text.infix_of_infix_append hp (Anchor.not_mem_indent hindent (by decide)) h)

theorem Ready.marked (h : Ready lines) :
    ∃ m m', lines.find? (Text.occurs usualImports.marker.toList) = some m ∧
    lines.find? (Text.occurs usualCalls.marker.toList) = some m' ∧
    Text.occurs usualCalls.marker.toList m = false ∧
    Text.occurs usualImports.marker.toList m' = false ∧ usualCalls.lead.isPrefixOf m = false ∧
    usualImports.lead.isPrefixOf m' = false := by
  obtain ⟨⟨indent, hfind, hindent⟩, ⟨indent', hfind', hindent'⟩⟩ := h
  refine ⟨_, _, hfind, hfind', not_occurs_indented (by decide) (by decide) hindent,
    not_occurs_indented (by decide) (by decide) hindent', ?_, ?_⟩
  · rw [lead_call]
    exact not_isPrefixOf_indented (by decide) (by decide) ⟨'r', by decide⟩ hindent
  · rw [lead_import]
    exact not_isPrefixOf_indented (by decide) (by decide) ⟨'u', by decide⟩ hindent'

theorem addBelow_comm (imports calls : List (List Char)) (h : Ready lines)
    (hi : ∀ l ∈ imports, ¬ usualCalls.marker.toList <:+: l)
    (hc : ∀ l ∈ calls, ¬ usualImports.marker.toList <:+: l) :
    usualImports.addBelow imports (usualCalls.addBelow calls lines) =
      usualCalls.addBelow calls (usualImports.addBelow imports lines) := by
  obtain ⟨m, m', hfind, hfind', hother, hother', hcall, himport⟩ := h.marked
  exact Text.insertBelow_comm hfind hfind' hother hother' hcall himport (fun l hl =>
    Text.occurs_eq_false_iff.2 (hi l hl)) (fun l hl => Text.occurs_eq_false_iff.2 (hc l hl))

theorem registered_append (h : Ready lines) (hd : ∀ n ∈ done, Fit n) (hn : Fit name) :
    usualCalls.addBelow [callLine name]
      (usualImports.addBelow [importLine name] (registered done lines)) =
      registered (done ++ [name]) lines := by
  have hcomm := addBelow_comm [importLine name] (done.map callLine) (h.addImports hd)
    (by simpa using hn.markerFree.2.1)
    (fun l hl => by obtain ⟨n, hm, rfl⟩ := List.mem_map.1 hl; exact (hd n hm).markerFree.1.2)
  have hleadi : ∀ l ∈ done.map importLine, usualImports.lead <+: l := by
    intro l hl
    obtain ⟨n, -, rfl⟩ := List.mem_map.1 hl
    rw [lead_import]
    exact List.prefix_append _ _
  have hleadc : ∀ l ∈ done.map callLine, usualCalls.lead <+: l := by
    intro l hl
    obtain ⟨n, -, rfl⟩ := List.mem_map.1 hl
    rw [lead_call]
    exact List.prefix_append _ _
  rw [registered, hcomm, Anchor.addBelow_addBelow hleadi, Anchor.addBelow_addBelow hleadc,
    registered, List.map_append, List.map_append]
  rfl

/-- Lines around the two markers, the imports marker first, without entries below the markers. -/
structure Unfilled (above between below : List (List Char))
    (indent indent' : List Char) : Prop where
  above : ∀ l ∈ above, Text.occurs usualImports.marker.toList l = false ∧
    Text.occurs usualCalls.marker.toList l = false
  between : ∀ l ∈ between, importLead.isPrefixOf l = false ∧
    Text.occurs usualCalls.marker.toList l = false
  below : ∀ l ∈ below, callLead.isPrefixOf l = false
  indent : ∀ c ∈ indent, c = ' ' ∨ c = '\t'
  indent' : ∀ c ∈ indent', c = ' ' ∨ c = '\t'

theorem occurs_indented (indent m : List Char) : Text.occurs m (indent ++ m) = true :=
  Text.occurs_iff.2 (List.suffix_append _ _).isInfix

theorem Unfilled.ready {above between below : List (List Char)} {indent indent' : List Char}
    (h : Unfilled above between below indent indent') :
    Ready (above ++ (indent ++ usualImports.marker.toList) ::
      (between ++ (indent' ++ usualCalls.marker.toList) :: below)) := by
  constructor
  · refine ⟨indent, List.find?_eq_some_iff_append.2 ⟨occurs_indented _ _, above, _, rfl,
      fun l hl => ?_⟩, h.indent⟩
    rw [Bool.not_eq_true']
    exact (h.above l hl).1
  · refine ⟨indent', List.find?_eq_some_iff_append.2 ⟨occurs_indented _ _,
      above ++ (indent ++ usualImports.marker.toList) :: between, below, by simp, fun l hl => ?_⟩,
      h.indent'⟩
    rw [Bool.not_eq_true']
    simp only [List.mem_append, List.mem_cons] at hl
    rcases hl with hl | rfl | hl
    · exact (h.above l hl).2
    · exact not_occurs_indented (by decide) (by decide) h.indent
    · exact (h.between l hl).2

/-- Where no entries stand below the markers the new ones stand directly there. -/
theorem Unfilled.registered {above between below : List (List Char)} {indent indent' : List Char}
    (h : Unfilled above between below indent indent') (hn : ∀ n ∈ names, Fit n) :
    registered names (above ++ (indent ++ usualImports.marker.toList) ::
        (between ++ (indent' ++ usualCalls.marker.toList) :: below)) =
      above ++ (indent ++ usualImports.marker.toList) :: (names.map importLine ++
        (between ++ (indent' ++ usualCalls.marker.toList) :: (names.map callLine ++ below))) := by
  have hstop : importLead.isPrefixOf (indent' ++ usualCalls.marker.toList) = false :=
    not_isPrefixOf_indented (by decide) (by decide) ⟨'u', by decide⟩ h.indent'
  have hother :
      Text.occurs usualCalls.marker.toList (indent ++ usualImports.marker.toList) = false :=
    not_occurs_indented (by decide) (by decide) h.indent
  have himports : usualImports.addBelow (names.map importLine)
      (above ++ (indent ++ usualImports.marker.toList) ::
        (between ++ (indent' ++ usualCalls.marker.toList) :: below)) =
      (above ++ (indent ++ usualImports.marker.toList) :: (names.map importLine ++ between)) ++
        (indent' ++ usualCalls.marker.toList) :: below := by
    unfold Anchor.addBelow
    rw [Text.insertBelow_append_cons _ _ (fun l hl => (h.above l hl).1) (occurs_indented _ _),
      lead_import, Text.extendRun_append_cons hstop,
      Text.extendRun_of_forall fun l hl => (h.between l hl).1]
    simp
  have hupper :
      ∀ l ∈ above ++ (indent ++ usualImports.marker.toList) :: (names.map importLine ++ between),
      Text.occurs usualCalls.marker.toList l = false := by
    intro l hl
    simp only [List.mem_append, List.mem_cons] at hl
    rcases hl with hl | rfl | hl | hl
    · exact (h.above l hl).2
    · exact hother
    · obtain ⟨n, hm, rfl⟩ := List.mem_map.1 hl
      exact Text.occurs_eq_false_iff.2 (hn n hm).markerFree.2.1
    · exact (h.between l hl).2
  rw [Route.registered, himports]
  unfold Anchor.addBelow
  rw [Text.insertBelow_append_cons _ _ hupper (occurs_indented _ _), lead_call,
    Text.extendRun_of_forall h.below]
  simp

/-- One registration in a text with names registered. -/
theorem register_lines (file : String) (h : Ready lines) (hd : ∀ n ∈ done, Fit n) (hn : Fit name)
    (hs : Text.segments '\n' s = registered done lines) :
    ∃ t, register file usualImports.marker usualCalls.marker name s = .ok t ∧
      Text.segments '\n' t = registered (done ++ [name]) lines := by
  have hready := h.registered hd
  rw [← hs] at hready
  obtain ⟨t, ht, hseg⟩ := Anchor.insert_lines usualImports_isComment (render_importEntry _ name)
    (not_mem_importLine hn.1) hready.1
  have hready' : Ready (Text.segments '\n' t) := by
    rw [hseg]
    exact hready.addImports (by simpa using hn : ∀ n ∈ [name], Fit n)
  obtain ⟨u, hu, hseg'⟩ :=
    Anchor.insert_lines usualCalls_isComment (render_callEntry _ name) (not_mem_callLine hn.1)
    hready'.2
  refine ⟨u, ?_, ?_⟩
  · rw [register_of_occurs file name (hready.1.present usualImports_isComment)
      (hready.2.present usualCalls_isComment), ht]
    exact hu
  · rw [hseg', hseg, hs, registered_append h hd hn]

/-- Registers names in a route file, one after the other. -/
def registerAll (file : Path) (names : List String) : Work Unit :=
  forM names fun name => discard (registerIn file name usualImports.marker usualCalls.marker)

theorem registerAll_run {w : Workspace} {file : Path}
    {l : Location} {c : String} (hr : w.Reaches file l)
    (hl : w.tree.get? l = some (.file (Text.encode c))) (h : Ready lines) (hd : ∀ n ∈ done, Fit n)
    (hn : ∀ n ∈ names, Fit n) (hc : Text.segments '\n' c.toList = registered done lines) :
    ∃ w' t, registerAll file names w = .ok () w' ∧
      w.Beside w' ∧ (∀ k, k ≠ l → w'.tree.get? k = w.tree.get? k) ∧
      w'.Reaches file l ∧ w'.tree.get? l = some (.file (Text.encode t)) ∧
      Text.segments '\n' t.toList = registered (done ++ names) lines := by
  induction names generalizing w c done with
  | nil => exact ⟨w, c, rfl, .refl w, fun _ _ => rfl, hr, hl, by simpa using hc⟩
  | cons n names ih =>
    obtain ⟨t, ht, hseg⟩ := register_lines file.name h hd (hn n List.mem_cons_self) hc
    obtain ⟨w₁, hrun, hb, hget, -⟩ := registerIn_of_ok hr hl ht
    have hr₁ : w₁.Reaches file l := hr.grows hb (FileTree.grows_of_get? (by simp [hl]) hget)
    have hd₁ : ∀ k ∈ done ++ [n], Fit k := by
      intro k hk
      rcases List.mem_append.1 hk with hk | hk
      · exact hd k hk
      · rw [List.mem_singleton.1 hk]
        exact hn n List.mem_cons_self
    obtain ⟨w₂, u, hrun', hb', hkeep, hr₂, hl₂, hseg'⟩ := ih hr₁ (by rw [hget, if_pos rfl]) hd₁
      (fun k hk => hn k (List.mem_cons_of_mem n hk)) (by simpa using hseg)
    refine ⟨w₂, u, ?_, hb.trans hb', fun k hk => ?_, hr₂, hl₂, by simpa using hseg'⟩
    · rw [registerAll, List.forM_cons, Work.bind_of_ok (Work.discard_of_ok hrun)]
      exact hrun'
    · rw [hkeep k hk, hget, if_neg (Ne.symm hk)]

/-- Registrations of fit names in a text in which both markers stand alone always succeed. The
lines are then those of the text with the imports and the calls inserted in the order of the
names, whichever of the two is inserted first; no line is lost or moved, and nothing else in the
tree changes. -/
theorem registerAll_lines {w : Workspace} {file : Path} {c : String}
    (hc : Work.readText file w = .ok c w) (hi : usualImports.AloneIn c.toList)
    (hr : usualCalls.AloneIn c.toList) (hn : ∀ n ∈ names, Fit n) :
    ∃ w' t, registerAll file names w = .ok () w' ∧ Work.readText file w' = .ok t w' ∧
      Text.segments '\n' t.toList = usualCalls.addBelow (names.map callLine)
          (usualImports.addBelow (names.map importLine) (Text.segments '\n' c.toList)) ∧
      Text.segments '\n' t.toList = usualImports.addBelow (names.map importLine)
          (usualCalls.addBelow (names.map callLine) (Text.segments '\n' c.toList)) ∧
      (Text.segments '\n' c.toList).Sublist (Text.segments '\n' t.toList) ∧
      w.Beside w' ∧ ∀ k, k ≠ FileTree.placeOf w.place file → w'.tree.get? k = w.tree.get? k := by
  obtain ⟨-, l, hreach, hl⟩ := Work.readText_eq_ok_iff.1 hc
  have hready : Ready (Text.segments '\n' c.toList) :=
    ⟨hi.standsAlone usualImports_isComment, hr.standsAlone usualCalls_isComment⟩
  obtain ⟨w', t, hrun, hb, hkeep, hreach', hl', hseg⟩ :=
    registerAll_run hreach hl hready (by simp : ∀ n ∈ ([] : List String), Fit n) hn
      (registered_nil _).symm
  rw [List.nil_append] at hseg
  refine ⟨w', t, hrun, Work.readText_eq_ok_iff.2 ⟨rfl, l, hreach', hl'⟩, hseg, ?_, ?_, hb, ?_⟩
  · rw [hseg, registered, addBelow_comm _ _ hready]
    · intro k hk
      obtain ⟨n, hm, rfl⟩ := List.mem_map.1 hk
      exact (hn n hm).markerFree.2.1
    · intro k hk
      obtain ⟨n, hm, rfl⟩ := List.mem_map.1 hk
      exact (hn n hm).markerFree.1.2
  · rw [hseg]
    exact (Text.sublist_insertBelow _ _ _ _).trans (Text.sublist_insertBelow _ _ _ _)
  · rw [← hreach.eq]
    exact hkeep

/-- Two names, in a file with the markers the other way round, an entry made before and no line
feed at the end. -/
theorem registerAll_lines_two : ∃ w w' t,
    Work.readText ⟨.here, ["route.rs"]⟩ w =
      .ok "\t// <prustbowo:routes>\n    router = register_a_routes(router);\n// <prustbowo:imports>"
        w ∧
    registerAll ⟨.here, ["route.rs"]⟩ ["users", "posts"] w = .ok () w' ∧
    Work.readText ⟨.here, ["route.rs"]⟩ w' = .ok t w' ∧
    (Text.segments '\n' t.toList).map String.ofList =
      ["\t// <prustbowo:routes>",
        "    router = register_a_routes(router);",
        "    router = register_users_routes(router);",
        "    router = register_posts_routes(router);",
        "// <prustbowo:imports>",
        "use crate::app::domain::users::handler::register_users_routes;",
        "use crate::app::domain::posts::handler::register_posts_routes;"] := by
  obtain ⟨w, hw⟩ :=
    exists_routeFile "\t// <prustbowo:routes>\n    router = register_a_routes(router);\n// <prustbowo:imports>"
  have hi : usualImports.AloneIn
      "\t// <prustbowo:routes>\n    router = register_a_routes(router);\n// <prustbowo:imports>".toList :=
    ⟨"\t// <prustbowo:routes>\n    router = register_a_routes(router);\n".toList, [], [], by decide,
      .inr (by decide), by simp, .inl rfl⟩
  have hr : usualCalls.AloneIn
      "\t// <prustbowo:routes>\n    router = register_a_routes(router);\n// <prustbowo:imports>".toList :=
    ⟨[], ['\t'], "\n    router = register_a_routes(router);\n// <prustbowo:imports>".toList,
      by decide, .inl rfl, by simp, .inr (by decide)⟩
  have hfit : ∀ n ∈ ["users", "posts"], Fit n := by
    unfold Fit
    decide
  obtain ⟨w', t, hrun, hread, hlines, -⟩ := registerAll_lines hw hi hr hfit
  refine ⟨w, w', t, hw, hrun, hread, ?_⟩
  rw [hlines]
  decide

end ApiScaffold.Route
