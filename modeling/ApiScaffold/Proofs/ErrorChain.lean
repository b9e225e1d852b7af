import ApiScaffold.ErrorChain
import Mathlib.Data.List.Chain
import Mathlib.Data.List.Forall2
import Mathlib.Data.List.Perm.Subperm

/-! Chains of errors come to an end on their own: wherever links lead, no error is told about
twice, and a chain goes on until there is nothing to go on to that is new. The bound on its length
is never in the way. -/
namespace ApiScaffold.ErrorChain
variable {links : List Link} {bound start i j : Nat} {seen : List Nat}
  {next : Option Nat} {l : Link}

def Closed (links : List Link) : Prop :=
  ∀ l ∈ links, ∀ i ∈ l.cause.toList ++ l.context.toList, i < links.length

instance (links : List Link) : Decidable (Closed links) :=
  inferInstanceAs
    (Decidable (∀ l ∈ links, ∀ i ∈ l.cause.toList ++ l.context.toList, i < links.length))

/-- An error is followed by its cause or, if it has none, by the error that was dealt with. -/
def Follows (links : List Link) (i j : Nat) : Prop :=
  ∃ l, links[i]? = some l ∧ (l.cause = some j ∨ l.cause = none ∧ l.context = some j)

/-- Different errors from a start on, each behind the one that it follows, with nothing new
behind the last. -/
structure IsWalk (links : List Link) (start : Nat) (chain : List Nat) : Prop where
  head : chain.head? = some start
  nodup : chain.Nodup
  follows : chain.IsChain (Follows links)
  stops : ∀ i ∈ chain.getLast?, ∀ j, Follows links i j → j ∈ chain

def Tells (links : List Link) (i : Nat) (text : String) : Prop :=
  ∃ l, links[i]? = some l ∧ text = l.text

theorem follows_iff (hl : links[i]? = some l) : Follows links i j ↔ l.next = some j := by
  unfold Follows Link.next
  cases hc : l.cause <;> simp [hl, hc]

theorem walkFrom_of_not_mem (hl : links[i]? = some l) (h : i ∉ seen) (bound : Nat) :
    walkFrom links (bound + 1) seen (some i) = i :: walkFrom links bound (i :: seen) l.next := by
  simp [walkFrom, hl, h]

theorem Closed.next_lt (h : Closed links) (hl : links[i]? = some l) (hj : l.next = some j) :
    j < links.length := by
  refine h l (List.mem_of_getElem? hl) j ?_
  unfold Link.next at hj
  cases hc : l.cause <;> simp_all

theorem Follows.unique (h : Follows links i j) {j' : Nat} (h' : Follows links i j') : j = j' := by
  obtain ⟨l, hl, -⟩ := id h
  rw [follows_iff hl] at h h'
  exact Option.some.inj (h.symm.trans h')

theorem mem_walkFrom (h : i ∈ walkFrom links bound seen next) : i < links.length ∧ i ∉ seen := by
  fun_induction walkFrom links bound seen next with
  | case5 bound seen k l hl hk ih =>
    rcases List.mem_cons.1 h with rfl | h
    · exact ⟨(List.getElem?_eq_some_iff.1 hl).1, hk⟩
    · obtain ⟨hlt, hnew⟩ := ih h
      exact ⟨hlt, fun hs => hnew (List.mem_cons_of_mem k hs)⟩
  | _ => cases h

theorem nodup_walkFrom (links : List Link) (bound : Nat) (seen : List Nat) (next : Option Nat) :
    (walkFrom links bound seen next).Nodup := by
  fun_induction walkFrom links bound seen next with
  | case5 bound seen k l hl hk ih =>
    exact List.nodup_cons.2 ⟨fun h => (mem_walkFrom h).2 List.mem_cons_self, ih⟩
  | _ => exact List.nodup_nil

theorem head?_walkFrom (h : i ∈ (walkFrom links bound seen next).head?) : next = some i := by
  fun_induction walkFrom links bound seen next with
  | case5 bound seen k l hl hk ih => exact h
  | _ => cases h

theorem isChain_walkFrom (links : List Link) (bound : Nat) (seen : List Nat) (next : Option Nat) :
    (walkFrom links bound seen next).IsChain (Follows links) := by
  fun_induction walkFrom links bound seen next with
  | case5 bound seen k l hl hk ih =>
    exact List.isChain_cons.2 ⟨fun j hj => (follows_iff hl).2 (head?_walkFrom hj), ih⟩
  | _ => exact List.isChain_nil

theorem bound_pos (hseen : seen.Nodup) (hthere : ∀ i ∈ seen, i < links.length)
    (hi : i < links.length) (hnew : i ∉ seen)
    (hbound : links.length ≤ seen.length + bound) : 0 < bound := by
  have hsub : i :: seen ⊆ List.range links.length := by
    intro k hk
    rcases List.mem_cons.1 hk with rfl | hk
    · exact List.mem_range.2 hi
    · exact List.mem_range.2 (hthere k hk)
  have hle := ((List.nodup_cons.2 ⟨hnew, hseen⟩).subperm hsub).length_le
  rw [List.length_cons, List.length_range] at hle
  omega

/-- A walk that is over has gone on to the next error, or knew it already. -/
theorem next_mem_walkFrom (hseen : seen.Nodup) (hthere : ∀ i ∈ seen, i < links.length)
    (hbound : links.length ≤ seen.length + bound) (hi : i < links.length) :
    i ∈ seen ∨ i ∈ walkFrom links bound seen (some i) := by
  by_cases hnew : i ∈ seen
  · exact .inl hnew
  · obtain ⟨b, rfl⟩ := Nat.exists_eq_add_one.2 (bound_pos hseen hthere hi hnew hbound)
    rw [walkFrom_of_not_mem (List.getElem?_eq_getElem hi) hnew]
    exact .inr List.mem_cons_self

theorem walkFrom_stops (hlinks : Closed links) (hseen : seen.Nodup)
    (hthere : ∀ i ∈ seen, i < links.length) (hbound : links.length ≤ seen.length + bound)
    (hi : i ∈ (walkFrom links bound seen next).getLast?)
    (hj : Follows links i j) : j ∈ seen ∨ j ∈ walkFrom links bound seen next := by
  fun_induction walkFrom links bound seen next with
  | case5 bound seen k l hl hk ih =>
    have hk' : k < links.length := (List.getElem?_eq_some_iff.1 hl).1
    have hseen' : (k :: seen).Nodup := List.nodup_cons.2 ⟨hk, hseen⟩
    have hthere' : ∀ i ∈ k :: seen, i < links.length := List.forall_mem_cons.2 ⟨hk', hthere⟩
    have hbound' : links.length ≤ (k :: seen).length + bound := by rw [List.length_cons]; omega
    have hrest : j ∈ k :: seen ∨ j ∈ walkFrom links bound (k :: seen) l.next := by
      cases hr : walkFrom links bound (k :: seen) l.next with
      | nil =>
        obtain rfl : k = i := by simpa [hr] using hi
        have hnext := (follows_iff hl).1 hj
        rw [← hr, hnext]
        exact next_mem_walkFrom hseen' hthere' hbound' (hlinks.next_lt hl hnext)
      | cons m rest =>
        rw [← hr]
        exact ih hseen' hthere' hbound' (by simpa [hr] using hi)
    simpa [or_left_comm, or_assoc] using hrest
  | _ => cases hi

theorem isWalk_walk (hlinks : Closed links) (hstart : start < links.length) :
    IsWalk links start (walk links start) where
  head := by
    obtain ⟨b, hb⟩ := Nat.exists_eq_add_one.2 (Nat.zero_lt_of_lt hstart)
    rw [walk, hb, walkFrom_of_not_mem (List.getElem?_eq_getElem hstart) List.not_mem_nil,
      List.head?_cons]
  nodup := nodup_walkFrom ..
  follows := isChain_walkFrom ..
  stops i hi j hj := by
    rcases walkFrom_stops hlinks List.nodup_nil (by simp) (by simp) hi hj with h | h
    · cases h
    · exact h

/-- Nothing branches off, so one of two chains with the same start goes on where the other ends. -/
theorem prefix_or_prefix {c d : List Nat} (hc : c.IsChain (Follows links))
    (hd : d.IsChain (Follows links)) (h : c.head? = d.head?) : c <+: d ∨ d <+: c := by
  induction c generalizing d with
  | nil => exact .inl List.nil_prefix
  | cons i c ih =>
    cases d with
    | nil => exact .inr List.nil_prefix
    | cons i' d =>
      obtain rfl : i = i' := by simpa using h
      rw [List.isChain_cons] at hc hd
      simp only [List.cons_prefix_cons, true_and]
      cases c with
      | nil => exact .inl List.nil_prefix
      | cons j c =>
        cases d with
        | nil => exact .inr List.nil_prefix
        | cons j' d => exact ih hc.2 hd.2 (congrArg some ((hc.1 j rfl).unique (hd.1 j' rfl)))

theorem IsWalk.eq_of_closes {c d : List Nat} (hc : IsWalk links start c) (hd : IsWalk links start d)
    (h : c <+: d) : c = d := by
  obtain ⟨t, rfl⟩ := h
  cases t with
  | nil => simp
  | cons j t =>
    obtain ⟨-, -, hlast⟩ := List.isChain_append.1 hd.follows
    obtain ⟨i, hi⟩ : ∃ i, c.getLast? = some i := by
      cases c with
      | nil => cases hc.head
      | cons k c => exact ⟨_, List.getLast?_eq_getLast_of_ne_nil (List.cons_ne_nil k c)⟩
    have hj := hc.stops i hi j (hlast i hi j rfl)
    have happart := (List.nodup_append.1 hd.nodup).2.2
    exact absurd rfl (happart j hj j List.mem_cons_self)

theorem IsWalk.unique {c d : List Nat} (hc : IsWalk links start c)
    (hd : IsWalk links start d) : c = d := by
  rcases prefix_or_prefix hc.follows hd.follows (hc.head.trans hd.head.symm) with h | h
  · exact hc.eq_of_closes hd h
  · exact (hd.eq_of_closes hc h).symm

theorem forall₂_tells {chain : List Nat} (h : ∀ i ∈ chain, i < links.length) :
    List.Forall₂ (Tells links) chain (chain.filterMap fun i => (links[i]?).map Link.text) := by
  induction chain with
  | nil => exact .nil
  | cons i chain ih =>
    obtain ⟨hi, hchain⟩ := List.forall_mem_cons.1 h
    have hl := List.getElem?_eq_getElem hi
    rw [List.filterMap_cons_some (by rw [hl, Option.map_some])]
    exact .cons ⟨_, hl, rfl⟩ (ih hchain)

/-- What is told from any start on are the texts of one chain of different errors, each the cause of
the one in front or, if that has none, what was dealt with when that came up. The chain ends only
where there is nothing to go on to, or nothing new; there is one such chain. -/
theorem textsFrom_walk (hlinks : Closed links) (hstart : start < links.length) :
    ∃ chain, IsWalk links start chain ∧ List.Forall₂ (Tells links) chain (textsFrom links start) ∧
      ∀ c, IsWalk links start c → c = chain := by
  have hwalk := isWalk_walk hlinks hstart
  refine ⟨walk links start, hwalk, ?_, fun c hc => hc.unique hwalk⟩
  exact forall₂_tells fun i hi => (mem_walkFrom hi).1

/-- Errors of which three lead round in a circle that the first is not on, and one that
leads to itself. -/
def circle : List Link :=
  [⟨.runtime, some "write docs", some 1, some 4⟩, ⟨.system, some "disk full", none, some 2⟩,
    ⟨.value, none, some 3, some 0⟩, ⟨.other "Stop", some "", some 1, none⟩,
    ⟨.key, none, some 4, none⟩]

/-- Into the circle and once round it, and at the error that leads to itself. -/
theorem textsFrom_walk_circle : (Closed circle ∧ 0 < circle.length ∧ 4 < circle.length) ∧
    (∃ chain, IsWalk circle 0 chain ∧
      List.Forall₂ (Tells circle) chain ["write docs", "disk full", "ValueError", "Stop"] ∧
      ∀ c, IsWalk circle 0 c → c = chain) ∧
    ∃ chain, IsWalk circle 4 chain ∧ List.Forall₂ (Tells circle) chain ["KeyError"] ∧
      ∀ c, IsWalk circle 4 c → c = chain := by
  have hclosed : Closed circle := by decide
  have hround : textsFrom circle 0 = ["write docs", "disk full", "ValueError", "Stop"] := by decide
  have hself : textsFrom circle 4 = ["KeyError"] := by decide
  have h0 : 0 < circle.length := by decide
  have h4 : 4 < circle.length := by decide
  exact ⟨⟨hclosed, h0, h4⟩, hround ▸ textsFrom_walk hclosed h0, hself ▸ textsFrom_walk hclosed h4⟩

end ApiScaffold.ErrorChain
