/-
**Directions passed on from port to port.**

A port list gives a direction once and means it for the ports behind, up to the next one that gives
another.  The function that writes the missing directions out carries the last one along the list.
This module says what is carried: one declaration changes it only by a direction of its own, so
behind any list it is the last direction that was given there.  Comments and interface ports neither
take a direction nor pass one on, also where an interface port has a direction itself; nothing
changes for the others if they are left out.

Main definitions:

* `VerilogDecl.Decl.isDirected` — the ports that take a direction and pass one on;
* `VerilogDecl.Decl.given?`, `VerilogDecl.Decl.directed` — the direction that a declaration gives,
  and a declaration with another direction;
* `VerilogDecl.Decl.lastGiven`, `VerilogDecl.Decl.LastGiven` — the last direction that is given in a
  list, computed and described.

Main results:

* `VerilogDecl.inheritDirectionsFrom_cons` — what one declaration does;
* `VerilogDecl.inheritDirectionsFrom_append` — **what is carried behind a list is the last direction
  that is given there**;
* `VerilogDecl.inheritDirectionsFrom_map`, `VerilogDecl.inheritDirectionsFrom_filter` — what does not
  see directions commutes with passing them on;
* `VerilogDecl.inheritDirections_fill` — **every port has the last direction given up to it, and
  nothing else changes**.
-/

import VerilogDecl.PortList

set_option relaxedAutoImplicit false
set_option autoImplicit false

namespace VerilogDecl

namespace Decl

/-- Is this a port that takes a direction and passes one on?  Comments and interface ports do
neither. -/
def isDirected : Decl → Bool
  | var v => !v.type.isInterface
  | comment _ => false

/-- The direction that a declaration gives to itself and to the ports behind it. -/
def given? : Decl → Option Direction
  | var v => if v.type.isInterface ∨ v.dir = .unspecified then none else some v.dir
  | comment _ => none

/-- A declaration with the direction `dir`, if it takes one. -/
def directed (dir : Direction) : Decl → Decl
  | var v => if v.type.isInterface then var v else var { v with dir }
  | comment s => comment s

theorem isDirected_cases (d : Decl) :
    d.isDirected = false ∨ ∃ v, d = var v ∧ v.type.isInterface = false := by
  cases d with
  | var v =>
      cases hv : v.type.isInterface with
      | true => exact Or.inl (by simp [isDirected, hv])
      | false => exact Or.inr ⟨v, rfl, hv⟩
  | comment s => exact Or.inl rfl

theorem directed_of_not_isDirected {d : Decl} (h : d.isDirected = false) (dir : Direction) :
    d.directed dir = d := by
  cases d with
  | var v =>
      have hv : v.type.isInterface = true := by simpa [isDirected] using h
      simp [directed, hv]
  | comment s => rfl

theorem given?_of_not_isDirected {d : Decl} (h : d.isDirected = false) : d.given? = none := by
  cases d with
  | var v =>
      have hv : v.type.isInterface = true := by simpa [isDirected] using h
      simp [given?, hv]
  | comment s => rfl

@[simp] theorem isDirected_directed (dir : Direction) (d : Decl) :
    (d.directed dir).isDirected = d.isDirected := by
  rcases d.isDirected_cases with hd | ⟨v, rfl, hv⟩
  · rw [directed_of_not_isDirected hd]
  · simp [directed, isDirected, hv]

@[simp] theorem directed_directed (dir dir' : Direction) (d : Decl) :
    (d.directed dir).directed dir' = d.directed dir' := by
  rcases d.isDirected_cases with hd | ⟨v, rfl, hv⟩
  · rw [directed_of_not_isDirected hd]
  · simp [directed, hv]

/-- A declaration that got the direction carried to it gives that direction. -/
theorem getD_given?_directed (last : Direction) (d : Decl) :
    (d.directed (d.given?.getD last)).given?.getD last = d.given?.getD last := by
  rcases d.isDirected_cases with hd | ⟨v, rfl, hv⟩
  · rw [directed_of_not_isDirected hd]
  · by_cases hdir : v.dir = .unspecified
    · by_cases hlast : last = .unspecified
      · simp [directed, given?, hv, hdir, hlast]
      · simp [directed, given?, hv, hdir, hlast]
    · simp [directed, given?, hv, hdir]

/-! ### The last direction of a list -/

/-- The last direction that is given in a list, or `last` if none is. -/
def lastGiven (last : Direction) (ds : List Decl) : Direction :=
  (ds.filterMap given?).getLast?.getD last

theorem lastGiven_cons (last : Direction) (d : Decl) (ds : List Decl) :
    lastGiven last (d :: ds) = lastGiven (d.given?.getD last) ds := by
  cases hd : d.given? with
  | none => rw [lastGiven, List.filterMap_cons_none hd, Option.getD_none, lastGiven]
  | some dir =>
      rw [lastGiven, List.filterMap_cons_some hd, List.getLast?_cons, Option.getD_some,
        Option.getD_some, lastGiven]

/-- The direction `dir` is the last one that is given in the list `ds`, or none is given there and
`dir` says so. -/
inductive LastGiven (ds : List Decl) : Direction → Prop
  | port {front back : List Decl} {d : Decl} {dir : Direction} : ds = front ++ d :: back →
      d.given? = some dir → (∀ e ∈ back, e.given? = none) → LastGiven ds dir
  | nowhere : (∀ e ∈ ds, e.given? = none) → LastGiven ds .unspecified

/-- What is computed is the last direction. -/
theorem lastGiven_eq_iff {ds : List Decl} {dir : Direction} :
    lastGiven .unspecified ds = dir ↔ LastGiven ds dir := by
  constructor
  · rintro rfl
    rw [lastGiven]
    cases hlast : (ds.filterMap given?).getLast? with
    | none =>
        exact LastGiven.nowhere (List.filterMap_eq_nil_iff.1 (List.getLast?_eq_none_iff.1 hlast))
    | some dir =>
        obtain ⟨dirs, hdirs⟩ := List.getLast?_eq_some_iff.1 hlast
        obtain ⟨front, rear, rfl, -, hrear⟩ := List.filterMap_eq_append_iff.1 hdirs
        obtain ⟨skipped, d, back, rfl, -, hd, hback⟩ := List.filterMap_eq_cons_iff.1 hrear
        exact LastGiven.port (List.append_assoc ..).symm hd (List.filterMap_eq_nil_iff.1 hback)
  · intro h
    cases h with
    | nowhere hds =>
        rw [lastGiven, List.filterMap_eq_nil_iff.2 hds, List.getLast?_nil, Option.getD_none]
    | port hds hd hback =>
        rw [lastGiven, hds, List.filterMap_append, List.filterMap_cons_some hd,
          List.filterMap_eq_nil_iff.2 hback, List.getLast?_concat, Option.getD_some]

end Decl

open Decl

/-! ### Passing directions on -/

/-- **One declaration takes the direction that it gives, or else the one that was carried to it, and
this is carried on.** -/
theorem inheritDirectionsFrom_cons (last : Direction) (d : Decl) (ds : List Decl) :
    inheritDirectionsFrom last (d :: ds) =
      d.directed (d.given?.getD last) :: inheritDirectionsFrom (d.given?.getD last) ds := by
  cases d with
  | comment s => rfl
  | var v =>
      by_cases hv : v.type.isInterface = true
      · simp [inheritDirectionsFrom, directed, given?, hv]
      · by_cases hdir : v.dir = .unspecified
        · simp [inheritDirectionsFrom, directed, given?, hv, hdir]
        · simp [inheritDirectionsFrom, directed, given?, hv, hdir]

/-- **What is carried behind a list is the last direction that is given there.** -/
theorem inheritDirectionsFrom_append (last : Direction) (ds es : List Decl) :
    inheritDirectionsFrom last (ds ++ es) =
      inheritDirectionsFrom last ds ++ inheritDirectionsFrom (lastGiven last ds) es := by
  induction ds generalizing last with
  | nil => rfl
  | cons d ds ih =>
      rw [List.cons_append, inheritDirectionsFrom_cons, inheritDirectionsFrom_cons, ih,
        lastGiven_cons, List.cons_append]

/-- A port has the last direction that is given up to it. -/
theorem getElem?_inheritDirectionsFrom (last : Direction) (ds : List Decl) (k : Nat) :
    (inheritDirectionsFrom last ds)[k]? =
      ds[k]?.map (directed (lastGiven last (ds.take (k + 1)))) := by
  induction ds generalizing last k with
  | nil => rfl
  | cons d ds ih =>
      rw [inheritDirectionsFrom_cons, List.take_succ_cons, lastGiven_cons]
      cases k with
      | zero => rfl
      | succ k => exact ih (d.given?.getD last) k

/-- A function on declarations that does not see directions may be applied before they are passed
on or after it. -/
theorem inheritDirectionsFrom_map {f : Decl → Decl} (hgiven : ∀ d, (f d).given? = d.given?)
    (hdirected : ∀ dir d, (f d).directed dir = f (d.directed dir)) (last : Direction)
    (ds : List Decl) :
    inheritDirectionsFrom last (ds.map f) = (inheritDirectionsFrom last ds).map f := by
  induction ds generalizing last with
  | nil => rfl
  | cons d ds ih =>
      rw [List.map_cons, inheritDirectionsFrom_cons, inheritDirectionsFrom_cons, List.map_cons,
        hgiven, hdirected, ih]

/-- Declarations that take no direction may be left out before directions are passed on or after
it. -/
theorem inheritDirectionsFrom_filter {keep : Decl → Bool}
    (h : ∀ d, d.isDirected = true → keep d = true) (last : Direction) (ds : List Decl) :
    inheritDirectionsFrom last (ds.filter keep) = (inheritDirectionsFrom last ds).filter keep := by
  have hkeep : ∀ dir d, keep (directed dir d) = keep d := by
    intro dir d
    cases hd : d.isDirected with
    | false => rw [directed_of_not_isDirected hd]
    | true => rw [h d hd, h _ ((isDirected_directed dir d).trans hd)]
  induction ds generalizing last with
  | nil => rfl
  | cons d ds ih =>
      rw [inheritDirectionsFrom_cons]
      by_cases hd : keep d = true
      · rw [List.filter_cons_of_pos hd, inheritDirectionsFrom_cons, ih,
          List.filter_cons_of_pos ((hkeep _ d).trans hd)]
      · -- what is left out gives no direction, so the one that is carried stays
        have hnone : d.given? = none :=
          given?_of_not_isDirected (Bool.eq_false_iff.2 fun hdir => hd (h d hdir))
        rw [List.filter_cons_of_neg hd, hnone, Option.getD_none, ih,
          List.filter_cons_of_neg (by rwa [hkeep])]

/-- Once all directions are written out there is nothing left to pass on. -/
theorem inheritDirectionsFrom_idem (last : Direction) (ds : List Decl) :
    inheritDirectionsFrom last (inheritDirectionsFrom last ds) = inheritDirectionsFrom last ds := by
  induction ds generalizing last with
  | nil => rfl
  | cons d ds ih =>
      rw [inheritDirectionsFrom_cons, inheritDirectionsFrom_cons, getD_given?_directed,
        directed_directed, ih]

/-- **Every port has the last direction that is given up to it, and no direction if none is.**
Comments, interface ports and everything but directions stay as they are.  A second pass changes
nothing; leaving out the declarations that take no direction, and whatever stands behind the list,
changes nothing for the others. -/
theorem inheritDirections_fill (ds : List Decl) :
    (inheritDirections ds).length = ds.length ∧
    (∀ (k : Nat) (d : Decl), ds[k]? = some d → d.isDirected = false →
      (inheritDirections ds)[k]? = some d) ∧
    (∀ (k : Nat) (v : Variable), ds[k]? = some (.var v) → v.type.isInterface = false →
      ∃ dir, (inheritDirections ds)[k]? = some (.var { v with dir }) ∧
        LastGiven (ds.take (k + 1)) dir) ∧
    inheritDirections (inheritDirections ds) = inheritDirections ds ∧
    inheritDirections (ds.filter isDirected) = (inheritDirections ds).filter isDirected ∧
    ∀ es, (inheritDirections (ds ++ es)).take ds.length = inheritDirections ds := by
  refine ⟨length_inheritDirections ds, ?_, ?_, inheritDirectionsFrom_idem .unspecified ds,
    inheritDirectionsFrom_filter (fun _ h => h) .unspecified ds, ?_⟩
  · intro k d hk hd
    rw [inheritDirections, getElem?_inheritDirectionsFrom, hk, Option.map_some,
      directed_of_not_isDirected hd]
  · intro k v hk hv
    refine ⟨lastGiven .unspecified (ds.take (k + 1)), ?_, lastGiven_eq_iff.1 rfl⟩
    rw [inheritDirections, getElem?_inheritDirectionsFrom, hk, Option.map_some, directed, hv]
    rfl
  · intro es
    rw [inheritDirections, inheritDirectionsFrom_append]
    exact List.take_left' (length_inheritDirections ds)

/-- Behind `input a` and an interface port that is marked as an output, the port `b` is an input. -/
theorem inheritDirections_fill_interface :
    (inheritDirections
        [.var ⟨.input, .implicit, "a", [], none⟩,
          .var ⟨.output, ⟨.interface "Bus" "host", .unspecified, [], TypeBase.fits_unspecified _⟩,
            "m", [], none⟩,
          .var ⟨.unspecified, .implicit, "b", [], none⟩])[2]? =
      some (.var ⟨.input, .implicit, "b", [], none⟩) ∧
    LastGiven
      [.var ⟨.input, .implicit, "a", [], none⟩,
        .var ⟨.output, ⟨.interface "Bus" "host", .unspecified, [], TypeBase.fits_unspecified _⟩,
          "m", [], none⟩,
        .var ⟨.unspecified, .implicit, "b", [], none⟩] .input := by
  refine ⟨rfl, ?_⟩
  generalize hds : (_ :: _ : List Decl) = ds
  obtain ⟨dir, hdir, hlast⟩ := (inheritDirections_fill ds).2.2.1 2
    ⟨.unspecified, .implicit, "b", [], none⟩ (by rw [← hds]; rfl) rfl
  subst hds
  cases hdir
  exact hlast

end VerilogDecl
