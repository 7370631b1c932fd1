import ProtoCatalog.Proofs.Acceptance
import ProtoCatalog.Proofs.Flaws
import ProtoCatalog.Proofs.Gathering
import ProtoCatalog.Proofs.MapEntries
import ProtoCatalog.Schema.Annotations

/-!
# Options messages without a projection

An options message with a flaw gives no options of its own where the flaw is a number, and then the
built-in options and the transformed values stand alone.  Any other flaw is a fault of the
declaration, and no file with such a declaration is accepted.
-/

namespace ProtoCatalog
namespace Options

open Projection (Flaw isRegular)

section Payloads

variable [DescriptorPool]

/-! ## One declaration -/

theorem exists_transformed {registry : Option Registry} {t : MessageType} {options : Record} :
    (∃ p, transformed registry t options = .ok p) ↔ ∀ g ∈ registry, g.Accepts t options := by
  cases registry with
  | none => exact iff_of_true ⟨_, rfl⟩ nofun
  | some g =>
    simp only [transformed, mapError_eq_ok, Registry.exists_apply_eq_ok, Option.mem_some_iff,
      forall_eq']

/-- With the built-in options and the transformed values, the options message decides. -/
theorem gather_eq {registry : Option Registry} {kind : DeclKind} {options : Record}
    {b p : OptionMap} (hb : builtin kind kind.optionsType options = .ok b)
    (hp : transformed registry kind.optionsType options = .ok p) :
    gather registry kind options =
      (do return OptionMap.merge [some b, some (← raw kind.optionsType options), some p]) := by
  rw [gather, gatherAs, hp, hb]
  rfl

theorem given_iff {registry : Option Registry} {site : DeclKind × Record}
    (h : ∀ g ∈ registry, g.Accepts site.1.optionsType site.2) :
    Given registry site ↔ Readable site.1.optionsType site.2 := by
  obtain ⟨p, hp⟩ := exists_transformed.mpr h
  obtain ⟨b, hb, -⟩ := exists_builtin site.1 site.2
  rw [Given, gather_eq hb hp, exists_map_eq_ok, exists_raw_eq_ok]

/-! ## Flaws -/

end Payloads

/-! ## A method with a packed message -/

attribute [local instance] Annotations.pool

end Options
end ProtoCatalog
