import JavaSource.Proofs.Lossless
import JavaSource.Proofs.VisitOrder
import JavaSource.Tree.Name

/-!
# Headers of type declarations

A parsed type declaration keeps its header: its type parameters and the types that it extends or
implements are in the tree, and are printed behind the words that introduced them
(`header_of_parseFrom`).  An interface has one place for both kinds of types: with an `implements`
clause it loses those that it extends (`exists_header_lost`).
-/

namespace JavaSource

/-! ### What a header prints -/

/-- The text of the elements of a list, each with the space after it, behind the word that opens the
list. -/
def Series.textBehind (opening : Text) (s : Series Tree) : Text :=
  s.before.toText ++ opening ++
    Text.join [','] (s.elements.map fun x => x.element.toText ++ x.after.toText)

/-- The header of a type declaration: what it prints in front of its body. -/
def ClassDeclaration.header (d : ClassDeclaration Tree) : Text :=
  (d.annotations ++ d.modifiers).flatMap Tree.toText ++ d.beforeKind.toText ++ d.kind.keyword ++
    d.name.toText ++
    d.typeParameters.elim [] (fun s => s.textBehind ['<'] ++ ['>']) ++
    d.superclass.elim [] (fun x => x.before.toText ++ "extends".toList ++ x.element.toText) ++
    d.interfaces.elim [] (Series.textBehind
      (if d.kind = .interface then "extends".toList else "implements".toList))

theorem text_separated (l : FollowedSlot) (xs : List (Followed Tree)) :
    (Piece.separated l [','] xs).flatMap Tree.pieceText =
      Text.join [','] (xs.map fun x => x.element.toText ++ x.after.toText) := by
  fun_induction Piece.separated l [','] xs with
  | case1 => rfl
  | case2 x => simp [Piece.followed, Tree.pieceText, Text.join]
  | case3 x y rest ih =>
    simp [Piece.followed, Tree.pieceText, Text.join, ih]

theorem text_listed (l : SeriesSlot) (opening : Text) (s : Series Tree) :
    (Piece.listed l opening [','] s).flatMap Tree.pieceText = s.textBehind opening := by
  simp [Piece.listed, Series.textBehind, Tree.pieceText, text_separated]

theorem text_ifPresent {β : Type} (f : β → List (Piece Tree)) (o : Option β) :
    (Piece.ifPresent f o).flatMap Tree.pieceText =
      o.elim [] fun b => (f b).flatMap Tree.pieceText := by
  cases o <;> rfl

theorem text_typeArguments (s : Series Tree) :
    (Piece.typeArguments s).flatMap Tree.pieceText = s.textBehind ['<'] ++ ['>'] := by
  rw [Piece.typeArguments, Piece.enclosed, List.flatMap_append, text_listed]
  rfl

theorem text_introduced (l : PrecededSlot) (w : Text) (x : Preceded Tree) :
    (Piece.introduced l w x).flatMap Tree.pieceText = x.before.toText ++ w ++ x.element.toText := by
  simp [Piece.introduced, Tree.pieceText]

/-- A type declaration prints its header, then its body. -/
theorem text_classDeclaration (d : ClassDeclaration Tree) :
    (Shape.classDeclaration d).pieces.flatMap Tree.pieceText = d.header ++ d.body.toText := by
  have hparts (ts : List Tree) : (ts.map Piece.part).flatMap Tree.pieceText =
      ts.flatMap Tree.toText := by
    rw [List.flatMap_map]
    rfl
  simp only [Shape.pieces, ClassDeclaration.header, List.flatMap_append, List.flatMap_cons,
    List.flatMap_nil, hparts, text_ifPresent, text_typeArguments, text_introduced, text_listed,
    Tree.pieceText, List.append_assoc, List.append_nil, List.cons_append]

/-! ### Where the text of a node is -/

theorem Tree.toText_infix_of_mem_children {t c : Tree} (hc : c ∈ t.children) :
    c.toText <:+: t.toText := by
  rw [children, ← Shape.parts_pieces] at hc
  obtain ⟨q, hq, heq⟩ := List.mem_filterMap.1 hc
  obtain rfl : q = .part c := by
    cases q <;> cases heq
    rfl
  obtain ⟨before, after, hpieces⟩ := List.append_of_mem hq
  rw [toText_eq t, hpieces, List.flatMap_append, List.flatMap_cons]
  exact ⟨t.leading.toText ++ before.flatMap pieceText, after.flatMap pieceText, by
    simp [pieceText]⟩

/-- The text of a node is a part of the text of the tree. -/
theorem Tree.toText_infix {t n : Tree} (hn : n ∈ t.preorder) : n.toText <:+: t.toText := by
  induction t using Tree.induction with
  | node t ih =>
    rw [preorder_eq, List.mem_cons, List.mem_flatMap] at hn
    rcases hn with rfl | ⟨c, hc, hn⟩
    · exact List.infix_rfl
    · exact (ih c hc hn).trans (toText_infix_of_mem_children hc)

/-! ### Headers in the source -/

/-- **Headers of type declarations.**  Where no interface carries an `implements` clause, the header of
each type declaration in a parsed tree stands in the source before the body of the declaration, with
the words behind which the types are printed. -/
theorem header_of_parseFrom {kind : SourceKind} {s : Text} {firstId nextId : NodeId} {t : Tree}
    (h : parseFrom kind s firstId = .ok (t, nextId)) (hp : NoImplements s) {n : Tree}
    (hn : n ∈ t.preorder) {d : ClassDeclaration Tree} (hd : n.shape = .classDeclaration d) :
    n.leading.toText ++ d.header ++ d.body.toText <:+: s := by
  obtain ⟨rest, hs, -⟩ := parseFrom_lossless h hp
  have htext : n.toText = n.leading.toText ++ d.header ++ d.body.toText := by
    rw [Tree.toText_eq, hd, text_classDeclaration, List.append_assoc]
  rw [← htext, hs]
  exact (Tree.toText_infix hn).trans (List.prefix_append _ _).isInfix

/-- A text without interfaces. -/
theorem noImplements_of_forall {s : Text}
    (h : (lex s).toOption.all fun ts => ts.all fun k => k.kind != .interfaceWord) :
    NoImplements s := by
  intro ts hts rest hrest hcarries
  rw [hts] at h
  cases rest with
  | nil => cases hcarries.1
  | cons k rest =>
    have hk := List.all_eq_true.1 h k (hrest.mem List.mem_cons_self)
    rw [show k.kind = .interfaceWord from hcarries.1] at hk
    cases hk

/-- A class with a type parameter, a superclass and two interfaces. -/
theorem header_of_parseFrom_class :
    ∃ t k, parseFrom .unit "final class A<T extends B> extends C implements D, E<T> {}".toList 0 =
        .ok (t, k) ∧
      NoImplements "final class A<T extends B> extends C implements D, E<T> {}".toList ∧
      ∃ n ∈ t.preorder, ∃ d, n.shape = .classDeclaration d ∧
        n.leading.toText ++ d.header ++ d.body.toText <:+:
          "final class A<T extends B> extends C implements D, E<T> {}".toList := by
  obtain ⟨t, k, h, hn⟩ : ∃ t k,
      parseFrom .unit "final class A<T extends B> extends C implements D, E<T> {}".toList 0 =
        .ok (t, k) ∧ t.preorder.any fun n => n.kind == .classDeclaration :=
    exists_parseFrom (by decide +kernel)
  have hp : NoImplements "final class A<T extends B> extends C implements D, E<T> {}".toList :=
    noImplements_of_forall (by decide +kernel)
  obtain ⟨n, hn, hkind⟩ := List.any_eq_true.1 hn
  obtain ⟨d, hd⟩ : ∃ d, n.shape = .classDeclaration d := by
    obtain ⟨i, s, x⟩ := n
    cases x <;> first | exact ⟨_, rfl⟩ | cases hkind
  exact ⟨t, k, h, hp, n, hn, d, hd, header_of_parseFrom h hp hn hd⟩

/-- The header of a type declaration. -/
def Tree.header? (t : Tree) : Option Text :=
  match t.shape with
  | .classDeclaration d => some d.header
  | _ => none

theorem Tree.exists_of_header? {t : Tree} {header : Text} (h : t.header? = some header) :
    ∃ d, t.shape = .classDeclaration d ∧ d.header = header := by
  unfold header? at h
  split at h
  · next d hd => exact ⟨d, hd, Option.some.inj h⟩
  · cases h

/-- The types that an interface extends are lost where it carries an `implements` clause: what the
declaration prints is nowhere in the source, and none of its nodes is the name of the type. -/
theorem exists_header_lost :
    ∃ t k, parseFrom .unit "interface A extends B implements C {}".toList 0 = .ok (t, k) ∧
      (∃ n ∈ t.preorder, ∃ d, n.shape = .classDeclaration d ∧
        d.header = "interface A extends C".toList ∧
          ¬ d.header <:+: "interface A extends B implements C {}".toList) ∧
      ∀ n ∈ t.preorder, ∀ type, n.shape ≠ .identifier ['B'] type := by
  obtain ⟨t, k, h, hlost⟩ : ∃ t k,
      parseFrom .unit "interface A extends B implements C {}".toList 0 = .ok (t, k) ∧
        ((t.preorder.any fun n => n.header? == some "interface A extends C".toList) &&
          t.preorder.all fun n => n.identifierName? != some ['B']) :=
    exists_parseFrom (by decide +kernel)
  rw [Bool.and_eq_true, List.any_eq_true, List.all_eq_true] at hlost
  obtain ⟨⟨n, hn, hheader⟩, hnames⟩ := hlost
  obtain ⟨d, hd, hd'⟩ := Tree.exists_of_header? (eq_of_beq hheader)
  refine ⟨t, k, h, ⟨n, hn, d, hd, hd', by rw [hd']; decide +kernel⟩, fun n hn type hshape => ?_⟩
  have hname := hnames n hn
  rw [Tree.identifierName?, hshape] at hname
  cases hname

end JavaSource
