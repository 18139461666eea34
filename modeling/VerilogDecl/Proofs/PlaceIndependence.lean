/-
**Places play no part in reading.**

Two lists with the same lexemes may come from different places.  What is read from them differs in
the texts of trace comments only, and what is wrong with them is said in the same words about the
same lexemes.  The proof compares both lists with the one list that has these lexemes all at one
place: moving tokens there is a relabeling that keeps every name, and each reader commutes with it.
What a reader does after another one then only has to respect the relation between two outcomes.

Main definitions:

* `VerilogDecl.Relabeling.unplaced` — the relabeling that forgets places;
* `VerilogDecl.Decl.blank`, `VerilogDecl.BlockItem.blank`, … — erase the texts of comments;
* `VerilogDecl.Options.view` — what may be compared: all, or all but the texts of comments;
* `VerilogDecl.SameButPlaces` — two outcomes that differ in places only.

Main results:

* `VerilogDecl.Fault.message_unplaced` — messages do not mention places;
* `VerilogDecl.SameButPlaces.bind`, `VerilogDecl.sameButPlaces_of_relabel` — how the relation is
  carried through a sequence of readers, and where it comes from;
* `VerilogDecl.Stmt.ofTokens_unplaced`, `VerilogDecl.ForAssign.takeAll_unplaced`,
  `VerilogDecl.readInstances_unplaced` — statements, assignments of loops and instances;
* `VerilogDecl.sameButPlaces_of_lexemes` — **all readers treat lists with the same lexemes alike**.
-/

import VerilogDecl.BlockItem
import VerilogDecl.ForInit
import VerilogDecl.Proofs.Instantiation
import VerilogDecl.Proofs.PassedDirections
import VerilogDecl.Proofs.Relabeling
import VerilogDecl.Report

set_option relaxedAutoImplicit false
set_option autoImplicit false

namespace VerilogDecl

open Token

/-! ### Forgetting places -/

/-- The relabeling that keeps all names and puts every token at one place. -/
def Relabeling.unplaced : Relabeling :=
  ⟨id, fun _ => ⟨"", 0, 0⟩⟩

@[simp] theorem Relabeling.name_unplaced : unplaced.name = id := rfl

@[simp] theorem TypeBase.rename_id (b : TypeBase) : b.rename id = b := by
  cases b <;> rfl

@[simp] theorem DataType.rename_id (t : DataType) : t.rename id = t := by
  obtain ⟨base, signing, ranges, fits⟩ := t
  simp only [DataType.rename, TypeBase.rename_id]

@[simp] theorem Lexeme.rename_id (l : Lexeme) : l.rename id = l := by
  cases l with
  | typeBase b => exact congrArg Lexeme.typeBase b.rename_id
  | _ => rfl

@[simp] theorem Declarator.map_rename_id (ds : List Declarator) : ds.map (rename id) = ds :=
  List.map_id ds

namespace Token

theorem relabel_unplaced (t : Token) : t.relabel .unplaced = ⟨t.lexeme, ⟨"", 0, 0⟩⟩ :=
  congrArg (Token.mk · ⟨"", 0, 0⟩) t.lexeme.rename_id

@[simp] theorem map_lexeme_unplaced (ts : List Token) :
    (ts.map (relabel .unplaced)).map lexeme = ts.map lexeme := by
  rw [List.map_map]
  exact List.map_congr_left fun t _ => t.lexeme.rename_id

/-- Only the lexemes are left. -/
theorem map_relabel_of_lexemes {ts us : List Token} (h : ts.map lexeme = us.map lexeme) :
    ts.map (relabel .unplaced) = us.map (relabel .unplaced) := by
  have hfun : relabel .unplaced = (fun l => (⟨l, ⟨"", 0, 0⟩⟩ : Token)) ∘ lexeme :=
    funext relabel_unplaced
  rw [hfun, ← List.map_map, h, List.map_map]

@[simp] theorem text_unplaced (t : Token) : (t.relabel .unplaced).text = t.text :=
  congrArg Lexeme.text t.lexeme.rename_id

@[simp] theorem listText_unplaced (ts : List Token) :
    listText (ts.map (relabel .unplaced)) = listText ts := by
  rw [listText, listText, List.map_map]
  congr 2
  funext t
  exact t.text_unplaced

/-- A question about lexemes has the same answer. -/
theorem any_lexeme_unplaced (p : Lexeme → Bool) (ts : List Token) :
    (ts.map (relabel .unplaced)).any (p ·.lexeme) = ts.any (p ·.lexeme) := by
  rw [List.any_map]
  congr 1
  funext t
  exact congrArg p t.lexeme.rename_id

end Token

theorem DeclFault.message_unplaced (whole : List Token) (f : DeclFault) :
    (f.relabel .unplaced).message (whole.map (Token.relabel .unplaced)) = f.message whole := by
  unfold message
  cases f <;>
    simp only [relabel, SigningMisuse.rename, Relabeling.name_unplaced, TypeBase.rename_id,
      text_unplaced, listText_unplaced]

/-- **No message mentions a place.** -/
theorem Fault.message_unplaced (f : Fault) : (f.relabel .unplaced).message = f.message := by
  unfold message
  cases f <;>
    simp only [relabel, DeclFault.message_unplaced, Relabeling.name_unplaced, id, text_unplaced,
      listText_unplaced]

/-! ### Erasing the texts of comments -/

section Blank

/-- A declaration without the text of a comment. -/
def Decl.blank : Decl → Decl
  | var v => var v
  | comment _ => comment ""

/-- A statement without the text of a comment. -/
def Stmt.blank : Stmt → Stmt
  | comment _ => comment ""
  | s => s

/-- An item without the text of a comment. -/
def ModuleItem.blank : ModuleItem → ModuleItem
  | decl d => decl d.blank
  | inst i => inst i

/-- A port list without the texts of comments. -/
def PortList.blank (p : PortList) : PortList :=
  { p with items := p.items.map ModuleItem.blank }

/-- An item of a block without the texts of comments. -/
def BlockItem.blank : BlockItem → BlockItem
  | decls ds => decls (ds.map Decl.blank)
  | stmts ss => stmts (ss.map Stmt.blank)

theorem BlockItem.blank_decls (ds : List Decl) : (decls ds).blank = decls (ds.map Decl.blank) := rfl

/-- An initialization without the texts of comments. -/
def ForInit.blank : ForInit → ForInit
  | decls ds => decls (ds.map Decl.blank)
  | assigns as => assigns as

theorem ForInit.blank_decls (ds : List Decl) : (decls ds).blank = decls (ds.map Decl.blank) := rfl

/-- What may be compared of a value: all of it, or with trace comments all but their texts. -/
def Options.view {α : Type} (options : Options) (blank : α → α) : α → α :=
  if options.markers then blank else id

variable {α β : Type} {options : Options}

/-- What commutes with erasing respects the view. -/
theorem Options.view_congr {blank : α → α} {blank' : β → β} {f : α → β}
    (hf : ∀ a, blank' (f a) = f (blank a)) {a b : α}
    (h : options.view blank a = options.view blank b) :
    options.view blank' (f a) = options.view blank' (f b) := by
  unfold Options.view at h ⊢
  split
  next hmarkers =>
    rw [if_pos hmarkers] at h
    rw [hf, hf, h]
  next hmarkers =>
    rw [if_neg hmarkers] at h
    exact congrArg f h

/-- What does not look at the texts of comments is the same on values with the same view. -/
theorem Options.eq_of_view {blank : α → α} {f : α → β} (hf : ∀ a, f (blank a) = f a) {a b : α}
    (h : options.view blank a = options.view blank b) : f a = f b := by
  unfold Options.view at h
  split at h
  · rw [← hf a, h, hf b]
  · exact congrArg f h

end Blank

@[simp] theorem Decl.declared?_blank (d : Decl) : d.blank.declared? = d.declared? := by
  cases d <;> rfl

theorem filterMap_declared?_blank (ds : List Decl) :
    (ds.map Decl.blank).filterMap Decl.declared? = ds.filterMap Decl.declared? := by
  rw [List.filterMap_map]
  congr 1
  funext d
  exact d.declared?_blank

theorem uninitialized?_blank (ds : List Decl) :
    uninitialized? (ds.map Decl.blank) = uninitialized? ds := by
  rw [uninitialized?, uninitialized?, filterMap_declared?_blank]

theorem inheritDirectionsFrom_blank (last : Direction) (ds : List Decl) :
    inheritDirectionsFrom last (ds.map Decl.blank) =
      (inheritDirectionsFrom last ds).map Decl.blank := by
  refine inheritDirectionsFrom_map (fun d => ?_) (fun dir d => ?_) last ds
  · cases d with
    | var v => rfl
    | comment s => rfl
  · cases d with
    | var v =>
        by_cases hv : v.type.isInterface = true
        · simp [Decl.directed, Decl.blank, hv]
        · simp [Decl.directed, Decl.blank, hv]
    | comment s => rfl

theorem PortList.blank_ofDecls (ds : List Decl) :
    (ofDecls ds).blank = ofDecls (ds.map Decl.blank) := by
  simp only [ofDecls, blank, inheritDirections, inheritDirectionsFrom_blank,
    filterMap_declared?_blank, List.map_map]
  rfl

/-- The place of a group shows in the text of its trace comment only. -/
theorem DeclGroup.view_decls_unplaced (options : Options) (g : DeclGroup) :
    options.view (List.map Decl.blank) ((g.relabel .unplaced).decls options) =
      options.view (List.map Decl.blank) (g.decls options) := by
  obtain ⟨pos, dir, type, declarators⟩ := g
  obtain ⟨markers⟩ := options
  cases markers with
  | false => simp [Options.view, decls, relabel]
  | true => simp [Options.view, decls, relabel, Decl.blank]

theorem DeclGroup.view_decls_congr {options : Options} {g g' : DeclGroup}
    (h : g.relabel .unplaced = g'.relabel .unplaced) :
    options.view (List.map Decl.blank) (g.decls options) =
      options.view (List.map Decl.blank) (g'.decls options) := by
  rw [← view_decls_unplaced, h, view_decls_unplaced]

theorem DeclGroup.view_flatMap_decls_congr {options : Options} {gs gs' : List DeclGroup}
    (h : gs.map (relabel .unplaced) = gs'.map (relabel .unplaced)) :
    options.view (List.map Decl.blank) (gs.flatMap (decls options)) =
      options.view (List.map Decl.blank) (gs'.flatMap (decls options)) := by
  have hview : ∀ gs : List DeclGroup,
      options.view (List.map Decl.blank) (gs.flatMap (decls options)) =
        (gs.map (relabel .unplaced)).flatMap
          fun g => options.view (List.map Decl.blank) (g.decls options) := by
    intro gs
    simp only [List.flatMap_map, view_decls_unplaced]
    unfold Options.view
    split
    · exact List.map_flatMap
    · rfl
  rw [hview, hview, h]

theorem Stmt.view_traced (options : Options) (s : Stmt) (p q : Position) :
    options.view BlockItem.blank (.stmts (s.traced options p)) =
      options.view BlockItem.blank (.stmts (s.traced options q)) := by
  obtain ⟨markers⟩ := options
  cases markers with
  | false => rfl
  | true => rfl

/-! ### Outcomes that differ in places only -/

section Outcomes

variable {α β γ δ : Type}

/-- Two outcomes that differ in places only: values that look the same through `view`, or faults
whose reports agree but for places. -/
inductive SameButPlaces (view : α → β) : Except Fault α → Except Fault α → Prop
  | ok {a b : α} (value : view a = view b) : SameButPlaces view (.ok a) (.ok b)
  | error {f g : Fault} (kind : f.report.kind = g.report.kind)
      (message : f.report.message = g.report.message)
      (lexemes : f.report.tokens.map Token.lexeme = g.report.tokens.map Token.lexeme) :
      SameButPlaces view (.error f) (.error g)

variable {view : α → β} {view' : γ → δ} {r s : Except Fault α}

/-- Faults that become equal when places are forgotten. -/
theorem SameButPlaces.of_fault {f g : Fault} (h : f.relabel .unplaced = g.relabel .unplaced) :
    SameButPlaces view (.error f) (.error g) := by
  refine .error ?_ ?_ ?_
  · change f.kind = g.kind
    rw [← f.kind_relabel .unplaced, h, g.kind_relabel]
  · change f.message = g.message
    rw [← f.message_unplaced, h, g.message_unplaced]
  · change f.tokens.map Token.lexeme = g.tokens.map Token.lexeme
    rw [← map_lexeme_unplaced, ← f.tokens_relabel, h, g.tokens_relabel, map_lexeme_unplaced]

/-- The next reader sees values that look the same. -/
theorem SameButPlaces.bind (h : SameButPlaces view r s) {f g : α → Except Fault γ}
    (hfg : ∀ a b, view a = view b → SameButPlaces view' (f a) (g b)) :
    SameButPlaces view' (r >>= f) (s >>= g) := by
  cases h with
  | ok value => exact hfg _ _ value
  | error kind message lexemes => exact .error kind message lexemes

/-- Values that look the same look the same through a coarser view. -/
theorem SameButPlaces.imp {view' : α → γ} (h : SameButPlaces view r s)
    (hview : ∀ a b, view a = view b → view' a = view' b) : SameButPlaces view' r s := by
  cases h with
  | ok value => exact .ok (hview _ _ value)
  | error kind message lexemes => exact .error kind message lexemes

/-- The values are passed on. -/
theorem SameButPlaces.map (h : SameButPlaces view r s) {f : α → γ}
    (hf : ∀ a b, view a = view b → view' (f a) = view' (f b)) :
    SameButPlaces view' (r.map f) (s.map f) := by
  cases h with
  | ok value => exact .ok (hf _ _ value)
  | error kind message lexemes => exact .error kind message lexemes

/-- Outcomes that become equal are two values or two faults. -/
theorem ok_or_error_of_mapError_eq {ε : Type} (view : α → β) {e : ε → ε} {r s : Except ε α}
    (h : (r.map view).mapError e = (s.map view).mapError e) :
    (∃ a b, r = .ok a ∧ s = .ok b ∧ view a = view b) ∨
      ∃ f g, r = .error f ∧ s = .error g ∧ e f = e g := by
  cases r with
  | ok a =>
      cases s with
      | ok b => exact Or.inl ⟨a, b, rfl, rfl, Except.ok.inj h⟩
      | error g => cases h
  | error f =>
      cases s with
      | ok b => cases h
      | error g => exact Or.inr ⟨f, g, rfl, rfl, Except.error.inj h⟩

/-- A reader that commutes with forgetting places does not depend on them. -/
theorem sameButPlaces_of_relabel {reader : List Token → Except Fault α} {view : α → α}
    (hread : ∀ ts, reader (ts.map (Token.relabel .unplaced)) =
      ((reader ts).map view).mapError (Fault.relabel .unplaced))
    {ts us : List Token} (h : ts.map Token.lexeme = us.map Token.lexeme) :
    SameButPlaces view (reader ts) (reader us) := by
  have heq := hread ts
  rw [map_relabel_of_lexemes h, hread us] at heq
  obtain ⟨a, b, hts, hus, hab⟩ | ⟨f, g, hts, hus, hfg⟩ := ok_or_error_of_mapError_eq view heq.symm
  · rw [hts, hus]
    exact .ok hab
  · rw [hts, hus]
    exact .of_fault hfg

theorem sameButPlaces_of_mapError {reader : List Token → Except Fault α}
    (hread : ∀ ts, reader (ts.map (Token.relabel .unplaced)) =
      (reader ts).mapError (Fault.relabel .unplaced))
    {ts us : List Token} (h : ts.map Token.lexeme = us.map Token.lexeme) :
    SameButPlaces id (reader ts) (reader us) := by
  refine sameButPlaces_of_relabel (fun ts => ?_) h
  have hid : (reader ts).map id = reader ts := id_map (reader ts)
  rw [hread, hid]

end Outcomes

/-! ### Declarations -/

section Readers

variable {ts us : List Token}

theorem sameButPlaces_refuseImproperAssigns (h : ts.map Token.lexeme = us.map Token.lexeme) :
    SameButPlaces id (refuseImproperAssigns ts) (refuseImproperAssigns us) :=
  sameButPlaces_of_mapError (refuseImproperAssigns_relabel .unplaced) h

theorem sameButPlaces_readDecls (options : Options)
    (h : ts.map Token.lexeme = us.map Token.lexeme) :
    SameButPlaces (options.view (List.map Decl.blank)) (readDecls options ts)
      (readDecls options us) := by
  refine (sameButPlaces_refuseImproperAssigns h).bind fun _ _ _ => ?_
  refine (sameButPlaces_of_relabel (readGroups_relabel .unplaced) h).bind fun gs gs' hgs => ?_
  exact .ok (DeclGroup.view_flatMap_decls_congr hgs)

theorem sameButPlaces_readDecl (options : Options)
    (h : ts.map Token.lexeme = us.map Token.lexeme) :
    SameButPlaces (options.view (List.map Decl.blank)) (readDecl options ts)
      (readDecl options us) := by
  refine (sameButPlaces_refuseImproperAssigns h).bind fun _ _ _ => ?_
  refine (sameButPlaces_of_relabel (readGroups_relabel .unplaced) h).bind fun gs gs' hgs => ?_
  have hfault : ∀ n, SameButPlaces (options.view (List.map Decl.blank))
      (.error (.arity n ts)) (.error (.arity n us)) := by
    intro n
    exact .of_fault (congrArg (Fault.arity n) (map_relabel_of_lexemes h))
  rcases gs with _ | ⟨g, _ | ⟨g₂, gs⟩⟩
  · obtain rfl : gs' = [] := by simpa using hgs.symm
    exact hfault 0
  · obtain ⟨g', rfl, hg⟩ := List.map_eq_singleton_iff.1 hgs.symm
    exact .ok (DeclGroup.view_decls_congr hg.symm)
  · obtain ⟨g', _, rfl, -, hgs⟩ := List.map_eq_cons_iff.1 hgs.symm
    obtain ⟨g₂', gs', rfl, -, hgs⟩ := List.map_eq_cons_iff.1 hgs
    have hlen : gs'.length = gs.length := by simpa using congrArg List.length hgs
    simp only [List.length_cons, hlen]
    exact hfault _

theorem sameButPlaces_readPorts (options : Options)
    (h : ts.map Token.lexeme = us.map Token.lexeme) :
    SameButPlaces (options.view PortList.blank) (readPorts options ts) (readPorts options us) := by
  refine (sameButPlaces_refuseImproperAssigns h).bind fun _ _ _ => ?_
  have hnames : bareNames? ts = bareNames? us := by
    have hts := bareNames?_relabel .unplaced ts
    rw [map_relabel_of_lexemes h, bareNames?_relabel] at hts
    simpa using hts.symm
  rw [hnames]
  cases bareNames? us with
  | some names => exact .ok rfl
  | none =>
      refine (sameButPlaces_readDecls options h).bind fun ds ds' hds => ?_
      exact .ok (Options.view_congr PortList.blank_ofDecls hds)

/-! ### Statements -/

theorem Target.ofTokens?_unplaced (ts : List Token) :
    ofTokens? (ts.map (Token.relabel .unplaced)) = ofTokens? ts :=
  congrArg ofLexemes? (map_lexeme_unplaced ts)

/-- Moving an assignment commutes with relabeling. -/
theorem moveLeadingAssign_relabel (ρ : Relabeling) (ts : List Token) :
    moveLeadingAssign (ts.map (Token.relabel ρ)) =
      (moveLeadingAssign ts).map (Token.relabel ρ) := by
  rcases ts with _ | ⟨⟨l, pos⟩, _ | ⟨t, ts⟩⟩
  · rfl
  · cases l <;> rfl
  · cases l with
    | assign a => simp [moveLeadingAssign, Token.relabel, Lexeme.rename]
    | _ => rfl

/-- The statement of a list that ends with `last?` behind the tokens `front`. -/
def Stmt.ofEnd (front : List Token) (last? : Option Lexeme) :
    Except (List Token) (Option Stmt) :=
  match last?, Target.ofTokens? front with
  | some (.assign a), some target => .ok (some (.assign target a))
  | some (.assign a), none => if a.isPlain then .ok none else .error front
  | some (.ports args), some target => .ok (some (.call target.toExpr (.ofBindings args)))
  | some (.ports _), none => .error front
  | _, _ => .ok none

theorem Stmt.ofEnd_unplaced (front : List Token) (last? : Option Lexeme) :
    ofEnd (front.map (Token.relabel .unplaced)) last? =
      (ofEnd front last?).mapError (List.map (Token.relabel .unplaced)) := by
  unfold ofEnd
  rw [Target.ofTokens?_unplaced]
  split
  next => rfl
  next a _ =>
    split
    · rfl
    · rfl
  next => rfl
  next => rfl
  next => rfl

theorem Stmt.ofTokens_unplaced (ts : List Token) :
    ofTokens (ts.map (Token.relabel .unplaced)) =
      (ofTokens ts).mapError (List.map (Token.relabel .unplaced)) := by
  -- apart from three short shapes, only the tokens in front and the last lexeme count
  have hend : ofEnd (ts.map (Token.relabel .unplaced)).dropLast
      ((ts.map (Token.relabel .unplaced)).getLast?.map Token.lexeme) =
      (ofEnd ts.dropLast (ts.getLast?.map Token.lexeme)).mapError
        (List.map (Token.relabel .unplaced)) := by
    rw [← List.getLast?_map, map_lexeme_unplaced, List.getLast?_map, ← List.map_dropLast,
      ofEnd_unplaced]
  rcases ts with _ | ⟨⟨l, pos⟩, _ | ⟨⟨l', pos'⟩, _ | ⟨t, ts⟩⟩⟩
  · rfl
  · cases l with
    | ident name => rfl
    | scopedIdent scope name => rfl
    | _ => exact hend
  · cases l with
    | scopedIdent scope name =>
        cases l' with
        | ports args => rfl
        | _ => exact hend
    | _ => exact hend
  · cases l with
    | scopedIdent scope name => cases l' <;> exact hend
    | _ => exact hend

theorem sameButPlaces_readBlockItem (options : Options)
    (h : ts.map Token.lexeme = us.map Token.lexeme) :
    SameButPlaces (options.view BlockItem.blank) (readBlockItem options ts)
      (readBlockItem options us) := by
  have hid : ∀ r : Except (List Token) (Option Stmt), r.map id = r := id_map
  have hdecl := sameButPlaces_readDecl options h
  have hstmt : ((Stmt.ofTokens (moveLeadingAssign ts)).map id).mapError
        (List.map (Token.relabel .unplaced)) =
      ((Stmt.ofTokens (moveLeadingAssign us)).map id).mapError
        (List.map (Token.relabel .unplaced)) := by
    rw [hid, hid, ← Stmt.ofTokens_unplaced, ← moveLeadingAssign_relabel, map_relabel_of_lexemes h,
      moveLeadingAssign_relabel, Stmt.ofTokens_unplaced]
  cases ts with
  | nil =>
      obtain rfl : us = [] := by simpa using h.symm
      exact .of_fault rfl
  | cons t ts =>
      obtain ⟨u, us, rfl, -⟩ := List.map_eq_cons_iff.1 h.symm
      unfold readBlockItem
      obtain ⟨s?, _, hts, hus, rfl⟩ | ⟨front, front', hts, hus, hfront⟩ :=
        ok_or_error_of_mapError_eq id hstmt
      · simp only [hts, hus]
        cases s? with
        | some s => exact .ok (s.view_traced options t.pos u.pos)
        | none => exact hdecl.map fun ds ds' => Options.view_congr BlockItem.blank_decls
      · simp only [hts, hus]
        exact .of_fault (congrArg (Fault.target · ⟨"", 0, 0⟩) hfront)

/-! ### Assignments of a loop -/

namespace ForAssign

theorem take_unplaced (ts : List Token) :
    take (ts.map (Token.relabel .unplaced)) =
      ((take ts).map (Prod.map id (List.map (Token.relabel .unplaced)))).mapError
        (Fault.relabel .unplaced) := by
  have hcomp : (fun t : Token => !t.isAssign) ∘ Token.relabel .unplaced =
      fun t => !t.isAssign := by
    funext t
    exact congrArg not (Token.isAssign_relabel .unplaced t)
  unfold take
  rw [List.dropWhile_map, List.takeWhile_map, hcomp]
  cases hdrop : ts.dropWhile (!·.isAssign) with
  | nil => rfl
  | cons t rest =>
      obtain ⟨l, pos⟩ := t
      cases l with
      | assign a =>
          simp only [List.map_cons, Token.relabel, Lexeme.rename]
          rw [Target.ofTokens?_unplaced]
          cases Target.ofTokens? (ts.takeWhile (!·.isAssign)) with
          | none => rfl
          | some target => rfl
      | _ => rfl

theorem takeAll_unplaced (whole ts : List Token) :
    takeAll (whole.map (Token.relabel .unplaced)) (ts.map (Token.relabel .unplaced)) =
      (takeAll whole ts).mapError (Fault.relabel .unplaced) := by
  fun_induction takeAll whole ts with
  | case1 ts fault htake =>
      rw [takeAll_eq, take_unplaced, htake]
      rfl
  | case2 ts a htake =>
      rw [takeAll_eq, take_unplaced, htake]
      rfl
  | case3 ts a sep rest htake hsep hempty =>
      obtain rfl := List.isEmpty_iff.1 hempty
      rw [takeAll_eq, take_unplaced, htake]
      simp [Except.map, Except.mapError, hsep, Fault.relabel]
  | case4 ts a sep rest htake hsep hne ih =>
      rw [takeAll_eq, take_unplaced, htake]
      simp only [Except.map, Except.mapError, Prod.map, List.map_cons, isSeparator_relabel,
        List.isEmpty_map, if_pos hsep, if_neg hne, ih]
      cases takeAll whole rest with
      | error fault => rfl
      | ok as => rfl
  | case5 ts a sep rest htake hsep =>
      rw [takeAll_eq, take_unplaced, htake]
      simp [Except.map, Except.mapError, hsep, Fault.relabel]

end ForAssign

theorem ForInit.startsAssigns_unplaced (ts : List Token) :
    startsAssigns (ts.map (Token.relabel .unplaced)) = startsAssigns ts := by
  rw [startsAssigns, startsAssigns, beforeComma_relabel, any_lexeme_unplaced,
    Declarator.starts_relabel]

theorem sameButPlaces_readForInit (options : Options)
    (h : ts.map Token.lexeme = us.map Token.lexeme) :
    SameButPlaces (options.view ForInit.blank) (readForInit options ts)
      (readForInit options us) := by
  refine (sameButPlaces_refuseImproperAssigns h).bind fun _ _ _ => ?_
  have hstarts : ForInit.startsAssigns ts = ForInit.startsAssigns us := by
    rw [← ForInit.startsAssigns_unplaced, map_relabel_of_lexemes h, ForInit.startsAssigns_unplaced]
  rw [hstarts]
  split
  · have hassigns : SameButPlaces id (ForAssign.takeAll ts ts) (ForAssign.takeAll us us) :=
      @sameButPlaces_of_mapError _ (fun ts => ForAssign.takeAll ts ts)
        (fun ts => ForAssign.takeAll_unplaced ts ts) _ _ h
    exact hassigns.bind fun as as' has => .ok (congrArg _ (congrArg ForInit.assigns has))
  · refine (sameButPlaces_readDecls options h).bind fun ds ds' hds => ?_
    have hinit : uninitialized? ds = uninitialized? ds' :=
      Options.eq_of_view uninitialized?_blank hds
    rw [hinit]
    cases uninitialized? ds' with
    | some v =>
        exact .of_fault (congrArg (Fault.uninitialized v.name) (map_relabel_of_lexemes h))
    | none => exact .ok (Options.view_congr ForInit.blank_decls hds)

/-! ### Instances -/

/-- Faults may be renamed member by member. -/
theorem mapM_map_mapError {α β γ ε : Type} {f : α → Except ε γ} {g : β → Except ε γ} {k : α → β}
    {e : ε → ε} (hg : ∀ x, g (k x) = (f x).mapError e) (xs : List α) :
    (xs.map k).mapM g = (xs.mapM f).mapError e := by
  induction xs with
  | nil => rfl
  | cons x xs ih =>
      rw [List.map_cons, List.mapM_cons, List.mapM_cons, hg, ih]
      cases f x with
      | error fault => rfl
      | ok y =>
          cases xs.mapM f with
          | error fault => rfl
          | ok ys => rfl

namespace Instance

theorem ofSegment?_unplaced (moduleName : String) (params : List (Binding ParamValue))
    (seg : List Token) :
    ofSegment? moduleName params (seg.map (Token.relabel .unplaced)) =
      ofSegment? moduleName params seg := by
  refine Option.ext fun i => ?_
  rw [ofSegment?_eq_some_iff, ofSegment?_eq_some_iff, map_lexeme_unplaced]

theorem fault_unplaced (whole seg : List Token) :
    fault (whole.map (Token.relabel .unplaced)) (seg.map (Token.relabel .unplaced)) =
      (fault whole seg).relabel .unplaced := by
  unfold fault
  rw [List.isEmpty_map, any_lexeme_unplaced]
  split
  · rfl
  · split
    · rfl
    · rfl

theorem ofSegment_unplaced (whole : List Token) (moduleName : String)
    (params : List (Binding ParamValue)) (seg : List Token) :
    ofSegment (whole.map (Token.relabel .unplaced)) moduleName params
        (seg.map (Token.relabel .unplaced)) =
      (ofSegment whole moduleName params seg).mapError (Fault.relabel .unplaced) := by
  unfold ofSegment
  rw [ofSegment?_unplaced, fault_unplaced]
  cases ofSegment? moduleName params seg with
  | none => rfl
  | some i => rfl

end Instance

theorem takeParams_relabel (ρ : Relabeling) (ts : List Token) :
    takeParams (ts.map (Token.relabel ρ)) =
      ((takeParams ts).1, (takeParams ts).2.map (Token.relabel ρ)) := by
  cases ts with
  | nil => rfl
  | cons t ts =>
      obtain ⟨l, pos⟩ := t
      cases l <;> rfl

theorem readInstances_unplaced (ts : List Token) :
    readInstances (ts.map (Token.relabel .unplaced)) =
      (readInstances ts).mapError (Fault.relabel .unplaced) := by
  cases ts with
  | nil => rfl
  | cons t ts =>
      obtain ⟨l, pos⟩ := t
      cases l with
      | ident moduleName =>
          have hident : (⟨.ident moduleName, pos⟩ : Token).relabel .unplaced =
              ⟨.ident moduleName, ⟨"", 0, 0⟩⟩ := rfl
          rw [List.map_cons, hident, readInstances_cons, readInstances_cons, takeParams_relabel,
            segments_relabel, ← hident, ← List.map_cons]
          exact mapM_map_mapError (Instance.ofSegment_unplaced _ moduleName _) _
      | _ => rfl

/-! ### Items of a module body -/

theorem readElaborationTask_unplaced (task : ElaborationTask) (ts : List Token) :
    readElaborationTask task (ts.map (Token.relabel .unplaced)) =
      (readElaborationTask task ts).mapError (Fault.relabel .unplaced) := by
  rcases ts with _ | ⟨t, _ | ⟨⟨l, pos⟩, _ | ⟨u, us⟩⟩⟩
  · rfl
  · rfl
  · cases l <;> rfl
  · cases l <;> rfl

theorem leadingTask?_unplaced (ts : List Token) :
    leadingTask? (ts.map (Token.relabel .unplaced)) = leadingTask? ts := by
  cases ts with
  | nil => rfl
  | cons t ts =>
      obtain ⟨l, pos⟩ := t
      cases l <;> rfl

theorem sameButPlaces_readModuleItems (options : Options)
    (h : ts.map Token.lexeme = us.map Token.lexeme) :
    SameButPlaces (options.view (List.map ModuleItem.blank)) (readModuleItems options ts)
      (readModuleItems options us) := by
  refine (sameButPlaces_refuseImproperAssigns h).bind fun _ _ _ => ?_
  have htask : leadingTask? ts = leadingTask? us := by
    rw [← leadingTask?_unplaced, map_relabel_of_lexemes h, leadingTask?_unplaced]
  have hports : ts.any (·.lexeme.isPorts) = us.any (·.lexeme.isPorts) := by
    rw [← any_lexeme_unplaced Lexeme.isPorts, map_relabel_of_lexemes h, any_lexeme_unplaced]
  rw [htask, hports]
  cases leadingTask? us with
  | some task =>
      have hitems := sameButPlaces_of_mapError (readElaborationTask_unplaced task) h
      exact hitems.imp fun is is' his => congrArg _ his
  | none =>
      simp only
      split
      · have hinst := sameButPlaces_of_mapError readInstances_unplaced h
        refine hinst.bind fun is is' his => .ok ?_
        exact congrArg (options.view _ <| List.map ModuleItem.inst ·) his
      · refine (sameButPlaces_readDecl options h).bind fun ds ds' hds => ?_
        refine .ok (Options.view_congr (fun ds => ?_) hds)
        rw [List.map_map, List.map_map]
        rfl

end Readers

/-! ### All readers -/

/-- **All readers treat lists with the same lexemes alike**: they read the same, but for the texts
of trace comments, or they report the same fault, but for its place. -/
theorem sameButPlaces_of_lexemes (options : Options) {ts us : List Token}
    (h : ts.map Token.lexeme = us.map Token.lexeme) :
    SameButPlaces (options.view PortList.blank) (readPorts options ts) (readPorts options us) ∧
    SameButPlaces (options.view (List.map ModuleItem.blank)) (readModuleItems options ts)
      (readModuleItems options us) ∧
    SameButPlaces (options.view (List.map Decl.blank)) (readDecls options ts)
      (readDecls options us) ∧
    SameButPlaces (options.view (List.map Decl.blank)) (readDecl options ts)
      (readDecl options us) ∧
    SameButPlaces (options.view BlockItem.blank) (readBlockItem options ts)
      (readBlockItem options us) ∧
    SameButPlaces (options.view ForInit.blank) (readForInit options ts) (readForInit options us) :=
  ⟨sameButPlaces_readPorts options h, sameButPlaces_readModuleItems options h,
    sameButPlaces_readDecls options h, sameButPlaces_readDecl options h,
    sameButPlaces_readBlockItem options h, sameButPlaces_readForInit options h⟩

/-- A call that is read at two places: the trace comments differ, and nothing else does. -/
theorem sameButPlaces_of_lexemes_call :
    [(⟨.ident "f", ⟨"a.sv", 1, 1⟩⟩ : Token)].map Token.lexeme =
        [(⟨.ident "f", ⟨"b.sv", 7, 3⟩⟩ : Token)].map Token.lexeme ∧
      readBlockItem ⟨true⟩ [⟨.ident "f", ⟨"a.sv", 1, 1⟩⟩] ≠
        readBlockItem ⟨true⟩ [⟨.ident "f", ⟨"b.sv", 7, 3⟩⟩] ∧
      SameButPlaces ((⟨true⟩ : Options).view BlockItem.blank)
        (readBlockItem ⟨true⟩ [⟨.ident "f", ⟨"a.sv", 1, 1⟩⟩])
        (readBlockItem ⟨true⟩ [⟨.ident "f", ⟨"b.sv", 7, 3⟩⟩]) := by
  refine ⟨rfl, ?_, (sameButPlaces_of_lexemes ⟨true⟩ (by rfl)).2.2.2.2.1⟩
  intro h
  have hitem := BlockItem.stmts.inj (Except.ok.inj h)
  have htrace := Stmt.comment.inj (List.cons.inj hitem).1
  exact absurd htrace (by decide)

end VerilogDecl
