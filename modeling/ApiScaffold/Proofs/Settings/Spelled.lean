import ApiScaffold.Proofs.Yaml.Document
import ApiScaffold.Proofs.Yaml.Mapping
import ApiScaffold.Proofs.Yaml.Pieces
import ApiScaffold.Proofs.Yaml.Stream
import ApiScaffold.Settings.Load

/-! What the settings file of a project spells out, with a name and an identifier in single
quotes. -/
namespace ApiScaffold.Settings
open Yaml Yaml.Scalar
open Text (CodePoint)

def spelledLayout : List Char :=
  openEntry "layout".toList (newLine 2 (wordEntry "domain_root".toList "src/app/domain".toList
    (newLine 2 (wordEntry "route_file".toList "src/app/route.rs".toList
    (newLine 2 (wordEntry "migrations_dir".toList "db/migrations".toList
    (newLine 2 (wordEntry "docs_file".toList "docs/swagger.json".toList (newLine 0 [])))))))))

/-- What stands in front of the name, between it and the identifier, and behind that,
without the quotes. -/
def spelledStart : List Char :=
  '#' :: (" prustbowo project settings".toList ++ newLine 0 ("name".toList ++ [':', ' ']))

def spelledMiddle : List Char :=
  newLine 0 ("crate".toList ++ [':', ' '])

def spelledEnd : List Char :=
  newLine 0 spelledLayout

def spelled (name crate : List Char) : List Char :=
  '#' :: (" prustbowo project settings".toList ++ newLine 0 (quotedEntry "name".toList name
    (newLine 0 (quotedEntry "crate".toList crate (newLine 0 spelledLayout)))))

theorem spelled_eq (name crate : List Char) : spelled name crate = spelledStart ++
    '\'' :: (name ++ '\'' :: (spelledMiddle ++ '\'' :: (crate ++ '\'' :: spelledEnd))) := by
  simp only [spelled, spelledStart, spelledMiddle, spelledEnd, quotedEntry, newLine,
    List.append_assoc, List.cons_append, List.nil_append, List.replicate_zero]

def points (s : String) : List CodePoint :=
  CodePoint.ofChars s.toList

def word (s : String) : Token :=
  .scalar (points s) true

def words : List String :=
  ["name", "crate", "layout", "domain_root", "src/app/domain", "route_file", "src/app/route.rs",
    "migrations_dir", "db/migrations", "docs_file", "docs/swagger.json"]

theorem words_text : ∀ s ∈ words, Tag.ofPlain s.toList = .text := by
  decide +kernel

def settingsTokens (name crate : List CodePoint) :
    List Token := [.blockMapping, .key, word "name", .value, .scalar name false,
      .key, word "crate", .value, .scalar crate false, .key, word "layout", .value,
  .blockMapping, .key, word "domain_root", .value, word "src/app/domain",
  .key, word "route_file", .value, word "src/app/route.rs",
  .key, word "migrations_dir", .value, word "db/migrations",
  .key, word "docs_file", .value, word "docs/swagger.json", .blockEnd, .blockEnd]

variable {name crate : List Char}

open Lexer in
theorem awaits_spelled (name crate : List Char) :
    Awaits { cursor := { rest := spelled name crate } } (quotedEntry "name".toList name
      (newLine 0 (quotedEntry "crate".toList crate (newLine 0 spelledLayout)))) 0 (-1) [] #[] := by
  have hcomment : " prustbowo project settings".toList.any isBreak = false := by decide
  exact awaits_comment (by simpa using hcomment) (startsWord_append (by decide) _)

theorem ofText_spelled (name crate : List Char) : ∃ bound, Token.ofText (spelled name crate) none =
    Lexer.tokens none (bound + 21) { cursor := { rest := spelled name crate } } := by
  have hlong : 21 ≤ (spelled name crate).length + 1 := by simp [spelled, quotedEntry, newLine]
  obtain ⟨bound, hbound⟩ := Nat.exists_eq_add_of_le' hlong
  exact ⟨bound, by rw [← hbound]; rfl⟩

open Lexer in
theorem tokens_spelled (hname : '\'' ∉ name)
    (hcrate : '\'' ∉ crate) (hmark : holdsMark name = false)
    (hmark' : holdsMark crate = false) : Token.ofText (spelled name crate) none =
      (settingsTokens (CodePoint.ofChars (unquoted .text name))
        (CodePoint.ofChars (unquoted .text crate)), none) := by
  obtain ⟨l₁, hread₁, h₁⟩ :=
    reads_quotedEntry (awaits_spelled name crate) (by decide) hname (by decide) (by decide)
      (startsWord_append (by decide) _) hmark
  obtain ⟨l₂, hread₂, h₂⟩ :=
    reads_quotedEntry h₁ (by decide) hcrate (by decide) (by decide)
      (startsWord_append (by decide) _) hmark'
  obtain ⟨l₃, hread₃, h₃⟩ :=
    reads_openEntry h₂ (by decide) (by decide) (by decide) (startsWord_append (by decide) _)
  obtain ⟨l₄, hread₄, h₄⟩ :=
    reads_wordEntry h₃ (by decide) (by decide) (by decide) (by decide) (by decide)
    (startsWord_append (by decide) _)
  obtain ⟨l₅, hread₅, h₅⟩ :=
    reads_wordEntry h₄ (by decide) (by decide) (by decide) (by decide) (by decide)
    (startsWord_append (by decide) _)
  obtain ⟨l₆, hread₆, h₆⟩ :=
    reads_wordEntry h₅ (by decide) (by decide) (by decide) (by decide) (by decide)
    (startsWord_append (by decide) _)
  obtain ⟨l₇, hread₇, h₇⟩ :=
    reads_wordEntry h₆ (by decide) (by decide) (by decide) (by decide) (by decide) startsWord_nil
  have hread :=
    (((((hread₁.trans hread₂).trans hread₃).trans hread₄).trans hread₅).trans hread₆).trans hread₇
  obtain ⟨bound, hbound⟩ := ofText_spelled name crate
  have hsum : bound + 21 = bound + 1 + 20 := rfl
  rw [hbound, hsum, hread, tokens_end h₇ (by decide)]
  simp [settingsTokens, word, points]

open Lexer in
theorem tokens_spelled_marked (hname : '\'' ∉ name) (hmark : holdsMark name = true) :
    Token.ofText (spelled name crate) none =
      ([.blockMapping, .key, word "name", .value], some .malformed) := by
  obtain ⟨bound, hbound⟩ := ofText_spelled name crate
  have hsum : bound + 21 = bound + 18 + 3 := rfl
  rw [hbound, hsum,
    tokens_quotedEntry (awaits_spelled name crate) (by decide) hname (by decide) (by decide) hmark]
  simp [word, points]

def textNode (s : List CodePoint) : Yaml.Node :=
  ⟨.text, .scalar s⟩

theorem scalarNode_word :
    ∀ s ∈ words, Graph.Reader.scalarNode (points s) true = textNode (points s) := by
  intro s hs
  rw [Graph.Reader.scalarNode, textNode, points, Graph.Reader.scalarTag, if_pos rfl,
    CodePoint.toChars_ofChars, words_text s hs]

theorem scalarNode_quoted (s : List CodePoint) : Graph.Reader.scalarNode s false = textNode s := rfl

/-- The nodes of a settings file. The first one is the root. -/
def settingsGraph (name crate : List CodePoint) : Graph :=
  ⟨#[⟨.mapping, .mapping [(1, 2), (3, 4), (5, 6)]⟩,
    textNode (points "name"), textNode name, textNode (points "crate"), textNode crate,
    textNode (points "layout"), ⟨.mapping, .mapping [(7, 8), (9, 10), (11, 12), (13, 14)]⟩,
    textNode (points "domain_root"), textNode (points "src/app/domain"),
    textNode (points "route_file"), textNode (points "src/app/route.rs"),
    textNode (points "migrations_dir"), textNode (points "db/migrations"),
    textNode (points "docs_file"), textNode (points "docs/swagger.json")]⟩

open Graph.Reader in
theorem graph_spelled (name crate : List CodePoint) :
    Graph.ofTokens (settingsTokens name crate) none = .ok (some 0, settingsGraph name crate) := by
  have hnode (bound : Nat) (handles : List (String × String)) :
      node (bound + 20) true false ⟨settingsTokens name crate, none, [], handles, {}⟩ =
        .ok (0, ⟨[], none, [], handles, settingsGraph name crate⟩) := by
    simp only [settingsTokens, word]
    rw [node_mapping, blockPairs_scalar, blockPairs_scalar, blockPairs_mapping, node_mapping,
      blockPairs_scalar, blockPairs_scalar, blockPairs_scalar, blockPairs_scalar, blockPairs_end]
    simpa [Except.bind, blockPairs_end, Graph.setContent, settingsGraph, words,
      scalarNode_quoted] using scalarNode_word
  have hlength : 3 * (settingsTokens name crate).length + 3 = 76 + 20 := rfl
  have hdocument : (document (76 + 20)).run
      { tokens := settingsTokens name crate, fault := none, handles := Graph.standardHandles } =
        .ok (some 0, ⟨[], none, [], Graph.standardHandles, settingsGraph name crate⟩) :=
    document_mapping (hnode 76 Graph.standardHandles)
  rw [Graph.ofTokens, hlength, hdocument]
  rfl

@[simp] theorem points_eq_iff {s t : String} : points s = points t ↔ s = t := by
  refine ⟨fun h => ?_, fun h => h ▸ rfl⟩
  have hlist := congrArg CodePoint.toChars h
  rw [points, points, CodePoint.toChars_ofChars, CodePoint.toChars_ofChars] at hlist
  exact String.toList_injective hlist

def settingsEntries (name crate : List CodePoint) : Entries :=
  [(.text (points "name"), .atom (.text name)), (.text (points "crate"), .atom (.text crate)),
    (.text (points "layout"), .collection 6)]

def layoutEntries : Entries :=
  [(.text (points "domain_root"), .atom (.text (points "src/app/domain"))),
    (.text (points "route_file"), .atom (.text (points "src/app/route.rs"))),
    (.text (points "migrations_dir"), .atom (.text (points "db/migrations"))),
    (.text (points "docs_file"), .atom (.text (points "docs/swagger.json")))]

def settingsDocument (name crate : List CodePoint) : Document :=
  ⟨.collection 0, ((Array.replicate 15 none).setIfInBounds 0
    (some (.mapping (settingsEntries name crate)))).setIfInBounds 6 (some (.mapping layoutEntries))⟩

section
open Document Builder
variable {n c : List CodePoint} {values : Array (Option Value)}

theorem fill_root (hfresh : Fresh 15 values 1)
    (collections : Array (Option Collection)) (count : Nat) : ∃ values', Fresh 15 values' 7 ∧
      fill count 0 ⟨settingsGraph n c, values, collections, []⟩ = .ok ((), ⟨settingsGraph n c,
        values', collections.setIfInBounds 0 (some (.mapping (settingsEntries n c))), [6]⟩) := by
  refine fill_mapping rfl (by simp [settingsGraph, Graph.tag?, Graph.get?, textNode]) ?_ count
  refine enters_text hfresh (by decide) rfl rfl (by simp) fun values₁ hfresh₁ => ?_
  refine enters_text hfresh₁ (by decide) rfl rfl (by simp [Atom.sameKey_text])
    fun values₂ hfresh₂ => ?_
  exact enters_mapping hfresh₂ (by decide) rfl rfl (by simp [Atom.sameKey_text])
    fun values₃ hfresh₃ => enters_nil hfresh₃

theorem fill_layout (hfresh : Fresh 15 values 7)
    (collections : Array (Option Collection)) (count : Nat) : ∃ values', Fresh 15 values' 15 ∧
      fill count 6 ⟨settingsGraph n c, values, collections, []⟩ = .ok ((), ⟨settingsGraph n c,
        values', collections.setIfInBounds 6 (some (.mapping layoutEntries)), []⟩) := by
  refine fill_mapping rfl (by simp [settingsGraph, Graph.tag?, Graph.get?, textNode]) ?_ count
  refine enters_text hfresh (by decide) rfl rfl (by simp) fun values₁ hfresh₁ => ?_
  refine enters_text hfresh₁ (by decide) rfl rfl (by simp [Atom.sameKey_text])
    fun values₂ hfresh₂ => ?_
  refine enters_text hfresh₂ (by decide) rfl rfl (by simp [Atom.sameKey_text])
    fun values₃ hfresh₃ => ?_
  exact enters_text hfresh₃ (by decide) rfl rfl (by simp [Atom.sameKey_text]) fun values₄ hfresh₄ =>
    enters_nil hfresh₄

theorem document_spelled (n c : List CodePoint) :
    Document.ofGraph 0 (settingsGraph n c) = .ok (settingsDocument n c) := by
  have hfresh := fresh_replicate 15 0
  have hvalue : value 0 ⟨settingsGraph n c, Array.replicate 15 none,
    Array.replicate 15 none, []⟩ = .ok (.collection 0,
      ⟨settingsGraph n c, (Array.replicate 15 none).setIfInBounds 0 (some (.collection 0)),
        Array.replicate 15 none, [0]⟩) :=
    value_mapping rfl (hfresh.2 0 (by decide) (by decide))
  obtain ⟨values, hfresh₁, hroot⟩ :=
    fill_root (n := n) (c := c) (hfresh.set (.collection 0)) (Array.replicate 15 none)
    (settingsGraph n c).pairCount
  obtain ⟨values', -, hlayout⟩ := fill_layout (n := n) (c := c) hfresh₁
    ((Array.replicate 15 none).setIfInBounds 0 (some (.mapping (settingsEntries n c))))
    (settingsGraph n c).pairCount
  have hfill : fillAll (settingsGraph n c).pairCount 16 ⟨settingsGraph n c,
      (Array.replicate 15 none).setIfInBounds 0 (some (.collection 0)), Array.replicate 15 none,
      [0]⟩ = .ok ((), ⟨settingsGraph n c, values', (settingsDocument n c).collections, []⟩) := by
    rw [fillAll_cons hroot 15, fillAll_cons hlayout 14, fillAll_nil _ 13]
    rfl
  have hsize : (settingsGraph n c).nodes.size = 15 := rfl
  unfold Document.ofGraph
  rw [hsize]
  simp only [bind, StateT.bind, StateT.run, Except.bind, pure, Except.pure, hvalue, hfill]
  rfl

end

theorem valueFor?_nil (key : String) : valueFor? key [] = none := rfl

theorem valueFor?_cons (key k : String) (v : Value) (entries : Entries) :
    valueFor? key ((.text (points k), v) :: entries) = if k = key then some v
      else valueFor? key entries := by
  by_cases hk : k = key
  · subst hk
    simp [valueFor?, points]
  · have hne : CodePoint.ofChars k.toList ≠ CodePoint.ofChars key.toList :=
      fun h => hk (points_eq_iff.1 h)
    simp [valueFor?, points, hk, hne]

theorem toText_points (s : String) : Atom.toText (.text (points s)) = .ok s := by
  rw [Atom.toText, points, CodePoint.joined_ofChars, String.ofList_toList]

/-- An empty text is no different from none. -/
theorem topText_eq {d : Document} {key : String} {entries : Entries} {s : List CodePoint}
    (h : valueFor? key entries = some (.atom (.text s))) :
    topText d key entries = .ok (String.ofList (CodePoint.joined s)) := by
  rw [topText, unlessFalsy, h]
  cases s <;> rfl

theorem text_eq {d : Document} {key s : String} {entries : Entries} (default : String)
    (h : valueFor? key entries = some (.atom (.text (points s)))) :
    text d key default entries = .ok s := by
  rw [text, h]
  exact congrArg (Except.mapError Failure.yaml) (toText_points s)

theorem ofDocument_spelled (file : Path) (n c : List CodePoint) :
    ofDocument file (settingsDocument n c) =
      .ok { name := String.ofList (CodePoint.joined n),
            crate := String.ofList (CodePoint.joined c) } := by
  have hname : topText (settingsDocument n c) "name" (settingsEntries n c) =
      .ok (String.ofList (CodePoint.joined n)) :=
    topText_eq (by simp [settingsEntries, valueFor?_cons])
  have hcrate : topText (settingsDocument n c) "crate" (settingsEntries n c) =
      .ok (String.ofList (CodePoint.joined c)) :=
    topText_eq (by simp [settingsEntries, valueFor?_cons])
  have hlayout : sectionOf (settingsDocument n c) "layout" (settingsEntries n c) =
      .ok layoutEntries := by
    have hvalue : valueFor? "layout" (settingsEntries n c) = some (.collection 6) := by
      simp [settingsEntries, valueFor?_cons]
    rw [sectionOf, hvalue]
    rfl
  have hnone (key : String) (hkey : key = "markers" ∨ key = "tools") :
      sectionOf (settingsDocument n c) key (settingsEntries n c) = .ok [] := by
    have hvalue : valueFor? key (settingsEntries n c) = none := by
      rcases hkey with rfl | rfl <;> simp [settingsEntries, valueFor?_cons, valueFor?_nil]
    rw [sectionOf, hvalue]
    rfl
  have husual : Layout.ofEntries (settingsDocument n c) layoutEntries = .ok {} := by
    have htext (key default s : String)
      (h : valueFor? key layoutEntries = some (.atom (.text (points s)))) :
        text (settingsDocument n c) key default layoutEntries = .ok s := text_eq default h
    have hroot := htext "domain_root" "src/app/domain" "src/app/domain"
      (by simp [layoutEntries, valueFor?_cons])
    have hroute := htext "route_file" "src/app/route.rs" "src/app/route.rs"
      (by simp [layoutEntries, valueFor?_cons])
    have hmigrations := htext "migrations_dir" "db/migrations" "db/migrations"
      (by simp [layoutEntries, valueFor?_cons])
    have hdocs := htext "docs_file" "docs/swagger.json" "docs/swagger.json"
      (by simp [layoutEntries, valueFor?_cons])
    simp only [Layout.ofEntries, hroot, hroute, hmigrations, hdocs, bind, Except.bind,
      pure, Except.pure]
  have hentries : ofEntries (settingsDocument n c) (settingsEntries n c) =
      .ok { name := String.ofList (CodePoint.joined n),
            crate := String.ofList (CodePoint.joined c) } := by
    simp only [ofEntries, hname, hcrate, hlayout, husual, hnone, bind, Except.bind, pure,
      Except.pure, true_or, or_true]
    rfl
  exact hentries

theorem length_spelled (name crate : List Char) :
    (spelled name crate).length ≤ name.length + crate.length + 256 := by
  have hpieces : spelledStart.length + spelledMiddle.length + spelledEnd.length ≤ 252 := by
    decide +kernel
  rw [spelled_eq]
  simp only [List.length_append, List.length_cons]
  omega

theorem all_spelled (name crate : List Char) :
    (spelled name crate).all isAllowed = (name.all isAllowed && crate.all isAllowed) := by
  have hpieces : spelledStart.all isAllowed = true ∧ spelledMiddle.all isAllowed = true ∧
      spelledEnd.all isAllowed = true := by
    decide +kernel
  have hquote : isAllowed '\'' = true := by decide
  simp [spelled_eq, List.all_append, List.all_cons, hpieces, hquote]

theorem not_mem_spelled {c : Char} (hc : c = '\r') (hname : c ∉ name) (hcrate : c ∉ crate) :
    c ∉ spelled name crate := by
  have hpieces : '\r' ∉ spelledStart ∧ '\r' ∉ spelledMiddle ∧ '\r' ∉ spelledEnd := by decide +kernel
  subst hc
  simp [spelled_eq, hpieces, hname, hcrate]

/-- A settings file spells out its name and identifier, as they are between single quotes.
With a character that may not stand in a text, or a mark between documents in the name, it
spells out nothing. -/
theorem ofBytes_spelled (file : Path) (hname : ∀ c ∈ name, c ≠ '\'' ∧ c ≠ '\r')
    (hcrate : ∀ c ∈ crate, c ≠ '\'' ∧ c ≠ '\r') (hlength : name.length + crate.length ≤ 1024)
    (hmark : holdsMark crate = true → holdsMark name = true) :
    ofBytes file (Text.encode (String.ofList (spelled name crate))) =
      if name.all isAllowed && crate.all isAllowed && !holdsMark name then
        .ok { name := String.ofList (unquoted .text name),
              crate := String.ofList (unquoted .text crate) }
      else .error (.yaml .malformed) := by
  have hquote : '\'' ∉ name ∧ '\'' ∉ crate :=
    ⟨fun h => (hname _ h).1 rfl, fun h => (hcrate _ h).1 rfl⟩
  have hreturn : '\r' ∉ spelled name crate :=
    not_mem_spelled rfl (fun h => (hname _ h).2 rfl) fun h => (hcrate _ h).2 rfl
  have hlist : (String.ofList (spelled name crate)).toList = spelled name crate :=
    String.toList_ofList
  have hne : String.ofList (spelled name crate) ≠ "" := by
    intro h
    have hnil := congrArg String.toList h
    rw [hlist] at hnil
    exact List.cons_ne_nil _ _ hnil
  have hshort : 4 * (String.ofList (spelled name crate)).toList.length ≤ Pieces.chunkSize := by
    have := length_spelled name crate
    rw [hlist, Pieces.chunkSize]
    omega
  have htext := Pieces.text_encode hne (hlist.symm ▸ hreturn) hshort
  rw [hlist, all_spelled] at htext
  unfold ofBytes
  simp only [htext]
  cases hall : name.all isAllowed && crate.all isAllowed
  · rfl
  · cases hmarked : holdsMark name
    · have hunmarked : holdsMark crate = false := by
        rw [← Bool.not_eq_true]
        exact fun h => by simp [hmark h] at hmarked
      simp only [Document.ofText, tokens_spelled hquote.1 hquote.2 hmarked hunmarked, graph_spelled,
        document_spelled, if_true, bind, Except.bind]
      simp only [ofDocument_spelled, CodePoint.joined_ofChars]
      rfl
    · simp only [Document.ofText, tokens_spelled_marked hquote.1 hmarked, if_true]
      rfl

end ApiScaffold.Settings
