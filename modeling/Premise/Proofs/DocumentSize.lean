import Premise.Proofs.Linking
import Premise.Proofs.Program

/-!
What the limit on the size of documents does.

An engine refuses a document with too many elements, and nothing comes of it but one fault. Every
other document is linked and evaluated as it would be under any limit that lets it in. The documents
that it imports are never measured, neither on the way to it nor later.
-/

namespace Premise

namespace Link

theorem linkAt_elements (library : Library) (limits : Limits) (n room : Nat) :
    linkAt library { limits with elements := n } room = linkAt library limits room := by
  induction room with
  | zero => rfl
  | succ room ih =>
    funext p root
    rw [linkAt, linkAt, ih]

end Link

namespace Engine

variable (engine : Engine)

/-- The engine with another limit on the size of documents. -/
def allowing (n : Nat) : Engine := { engine with limits := { engine.limits with elements := n } }

theorem linkChecked_allowing (n : Nat) : (engine.allowing n).linkChecked = engine.linkChecked := by
  funext root source
  unfold linkChecked Link.link
  exact congrFun (congrFun (Link.linkAt_elements engine.library engine.limits n _) _) root

theorem run_allowing (n : Nat) : (engine.allowing n).run = engine.run := by
  funext linked root
  have halike : ((engine.allowing n).program linked).Alike (engine.program linked) :=
    ⟨rfl, rfl, rfl, rfl, rfl⟩
  have hdocument : Session.evaluateDocument ((engine.allowing n).program linked) =
      Session.evaluateDocument (engine.program linked) := by
    funext scope space constraints s root
    exact Session.evaluateDocument_alike halike scope space s root fun _ _ => rfl
  rw [run_eq, run_eq, hdocument]

/-- Only the document itself is measured. With too many elements it comes to a single fault; without
them it links and evaluates as under any other limit that lets it in, whatever it imports. -/
theorem only_root_measured (root : Element) (source : Option String) :
    let size := (Element.preorder root).length
    (engine.limits.elements < size →
      let refusal : List Fault := [.of (.document (.tooLarge size engine.limits.elements))]
      engine.link (some root) source = { faults := refusal } ∧
      engine.evaluate (some root) source = { faults := refusal }) ∧
    (size ≤ engine.limits.elements → ∀ n, size ≤ n →
      (engine.allowing n).link (some root) source = engine.link (some root) source ∧
      (engine.allowing n).evaluate (some root) source = engine.evaluate (some root) source) := by
  intro size
  refine ⟨fun hlarge => ?_, fun hsmall n hn => ?_⟩
  · unfold link evaluate
    rw [check_of_lt hlarge]
    exact ⟨rfl, rfl⟩
  · unfold link evaluate
    rw [check_of_le hsmall, @check_of_le (engine.allowing n) root hn, linkChecked_allowing,
      run_allowing]
    exact ⟨rfl, rfl⟩

/-- An engine for documents of at most two elements, and a library with one of three. -/
def narrow : Engine := { limits := { elements := 2 }, library := Link.unitLibrary }

/-- A document of two elements that imports the larger one. -/
def narrowRoot : Element :=
  (Element.leaf "tenet").addChild ((Element.leaf Link.importTag).setAttribute "src" "unit")

theorem only_root_measured_narrow :
    narrow.limits.elements < (Element.preorder Link.unit).length ∧
    (narrow.link (some Link.unit) none).symbols.size = 0 ∧
    (Element.preorder narrowRoot).length ≤ narrow.limits.elements ∧
    (narrow.allowing 100).link (some narrowRoot) none = narrow.link (some narrowRoot) none := by
  have hlarge : narrow.limits.elements < (Element.preorder Link.unit).length := by decide
  have hsmall : (Element.preorder narrowRoot).length ≤ narrow.limits.elements := by decide
  have hrefused := ((only_root_measured narrow Link.unit none).1 hlarge).1
  have hsame := (only_root_measured narrow narrowRoot none).2 hsmall 100 (by decide)
  refine ⟨hlarge, ?_, hsmall, hsame.1⟩
  rw [hrefused]
  rfl

/-- The document of three elements is taken in all the same where it is imported. -/
theorem link_larger_import :
    (Element.preorder Link.unit).length = 3 ∧ narrow.limits.elements = 2 ∧
    (narrow.link (some narrowRoot) none).symbols.names = ["s"] ∧
    (narrow.link (some narrowRoot) none).faults.length = 0 := by
  decide +kernel

end Engine

end Premise
