import ApiScaffold.Proofs.Yaml.Closed
import Mathlib.Data.List.Perm.Subperm

/-! Telling the values of documents. In a closed document only an integer can be in the way, if it
has too many digits: collections lie within one another no deeper than there are collections until
one lies within itself. -/
namespace ApiScaffold.Yaml
variable {kind : Fault → Prop} {d : Document} {v : Value}

def Fault.IsLong (fault : Fault) : Prop :=
  fault = .digits none

theorem Atom.errsOnly_quoted (hlong : kind (.digits none)) (a : Atom) : ErrsOnly kind a.quoted := by
  cases a with
  | int n =>
    rw [quoted, intText]
    split
    · exact errsOnly_ok _
    · exact errsOnly_error hlong
  | _ => exact errsOnly_ok _

theorem Atom.errsOnly_toText (hlong : kind (.digits none)) (a : Atom) : ErrsOnly kind a.toText := by
  unfold toText
  split
  · exact errsOnly_ok _
  · exact errsOnly_ok _
  · exact errsOnly_ok _
  · exact a.errsOnly_quoted hlong

theorem Collection.errsOnly_text {quoted : Value → Except Fault String}
    (hlong : kind (.digits none)) (c : Collection) (h : ∀ v ∈ c.values, ErrsOnly kind (quoted v)) :
    ErrsOnly kind (c.text quoted) := by
  cases c with
  | list items => exact (ErrsOnly.mapM h).bind fun _ => errsOnly_ok _
  | pairs items =>
    refine (ErrsOnly.mapM fun p hp => ?_).bind fun _ => errsOnly_ok _
    have hpair : p.1 ∈ (Collection.pairs items).values ∧ p.2 ∈ (Collection.pairs items).values :=
      ⟨List.mem_flatMap.2 ⟨p, hp, by simp⟩, List.mem_flatMap.2 ⟨p, hp, by simp⟩⟩
    exact (h p.1 hpair.1).bind fun _ => (h p.2 hpair.2).bind fun _ => errsOnly_ok _
  | mapping entries =>
    refine (ErrsOnly.mapM fun p hp => ?_).bind fun _ => errsOnly_ok _
    exact (p.1.errsOnly_quoted hlong).bind fun _ =>
      (h p.2 (List.mem_map_of_mem hp)).bind fun _ => errsOnly_ok _
  | set items =>
    cases items with
    | nil => exact errsOnly_ok _
    | cons a items =>
      exact (ErrsOnly.mapM fun a _ => a.errsOnly_quoted hlong).bind fun _ => errsOnly_ok _

namespace Document

/-- Collections that lie within one another are different until one lies within itself, so the bound
is not reached. -/
theorem errsOnly_quotedWithin (good : Value → Prop) {bound : Nat} {outer : List NodeId}
    (hlong : kind (.digits none))
    (hthere : ∀ n, good (.collection n) → d.collection? n = none → kind .malformed)
    (hinner : ∀ n c, good (.collection n) → d.collection? n = some c → ∀ v ∈ c.values, good v)
    (hend : kind .endless ∨ outer.Nodup ∧ (∀ n ∈ outer, n < d.collections.size) ∧
      d.collections.size < outer.length + bound) (hv : good v) :
    ErrsOnly kind (d.quotedWithin bound outer v) := by
  induction bound generalizing outer v with
  | zero =>
    cases v with
    | atom a => exact a.errsOnly_quoted hlong
    | collection n =>
      rcases hend with hend | ⟨hnodup, hsize, hlength⟩
      · exact errsOnly_error hend
      · have hle := (hnodup.subperm fun n hn => List.mem_range.2 (hsize n hn)).length_le
        rw [List.length_range] at hle
        omega
  | succ bound ih =>
    cases v with
    | atom a => exact a.errsOnly_quoted hlong
    | collection n =>
      rw [quotedWithin]
      split
      · rename_i hnone
        exact errsOnly_error (hthere n hv hnone)
      · rename_i c hc
        split
        · exact errsOnly_ok _
        · rename_i hnew
          refine Collection.errsOnly_text hlong c fun x hx =>
            ih (hend.imp_right ?_) (hinner n c hv hc x hx)
          rintro ⟨hnodup, hsize, hlength⟩
          have hn : n < d.collections.size := by
            rw [collection?, Option.join_eq_some_iff] at hc
            exact (Array.getElem?_eq_some_iff.1 hc).1
          refine ⟨List.nodup_cons.2 ⟨hnew, hnodup⟩, List.forall_mem_cons.2 ⟨hn, hsize⟩, ?_⟩
          rw [List.length_cons]
          omega

/-- A value of a closed document can be told, unless an integer in it has too many digits. -/
theorem Closed.errsOnly_text (hd : d.Closed) (hv : d.Has v) : ErrsOnly Fault.IsLong (d.text v) := by
  have hlong : Fault.IsLong (.digits none) := rfl
  have hthere : ∀ n, d.Has (.collection n) → d.collection? n = none → Fault.IsLong .malformed := by
    intro n hn hnone
    rw [Has, hnone] at hn
    cases hn
  cases v with
  | atom a => exact a.errsOnly_toText hlong
  | collection n =>
    refine errsOnly_quotedWithin d.Has hlong hthere (fun m c _ hc => hd.inner m c hc)
      (.inr ⟨List.nodup_nil, ?_, ?_⟩) hv
    · simp
    · simp

theorem Closed.has_of_entries {entries : List (Atom × Value)} {w : Value} (hd : d.Closed)
    (he : d.entries? w = some entries) (hv : v ∈ entries.map (·.2)) : d.Has v := by
  cases w with
  | atom a => cases he
  | collection n =>
    rw [entries?] at he
    split at he
    · rename_i inner hc
      obtain rfl := Option.some.inj he
      exact hd.inner n _ hc v hv
    · cases he

end Document
end ApiScaffold.Yaml
