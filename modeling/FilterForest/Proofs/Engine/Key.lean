import FilterForest.Engine.Cache
import FilterForest.Proofs.Forest.Reachability
import FilterForest.Proofs.Snapshot.Text

/-!
# What a key stands for

The parts of a key are found again in its text: digits and a minus up to the first colon, the name
of a format up to the second, and the groups after it. So a key determines the layer, the format
and the groups that apply to the layer, these up to buffers that are not finite.
-/
namespace FilterForest

open Text

theorem Format.name_inj {format format' : Format} {r s : List Char}
    (h : format.name.toList ++ ':' :: r = format'.name.toList ++ ':' :: s) :
    format = format' ∧ r = s := by
  cases format with
  | cql =>
    cases format' with
    | cql => exact ⟨rfl, by simpa [name] using h⟩
    | cql2Json => simp [name] at h
  | cql2Json =>
    cases format' with
    | cql => simp [name] at h
    | cql2Json => exact ⟨rfl, by simpa [name] using h⟩

theorem Snapshot.HasFiniteBuffers.applicable {groups : Snapshot} (h : groups.HasFiniteBuffers)
    (layer : LayerId) : (groups.applicable layer).HasFiniteBuffers :=
  fun g hg => h g (List.mem_of_mem_filter hg)

namespace Cache

variable {groups groups' : Snapshot} {layer layer' : LayerId} {format format' : Format}

/-- A key stands for one layer, one format and one list of groups that apply to the layer, up to
buffers that are not finite. -/
theorem key_eq_iff : key groups layer format = key groups' layer' format' ↔
    layer = layer' ∧ format = format' ∧
      (groups.applicable layer).asWritten = (groups'.applicable layer').asWritten := by
  refine ⟨fun heq => ?_, ?_⟩
  · have hrun : ∀ n : ℤ, ∀ c ∈ Decimal.integer n, (c = '-' || c.isDigit) = true := by
      intro n c hc
      simpa using Decimal.mem_integer hc
    have hcolon : ∀ s : List Char, ∀ c ∈ (':' :: s).head?, (c = '-' || c.isDigit) = false := by
      intro s c hc
      obtain rfl := Option.some.inj hc
      decide
    have hchars := String.ofList_injective heq
    simp only [List.cons_append, List.append_assoc] at hchars
    obtain ⟨hlayer, hafter⟩ := run_inj (hrun _) (hrun _) (hcolon _) (hcolon _) hchars
    obtain ⟨hformat, htext⟩ := Format.name_inj (List.cons.inj hafter).2
    exact ⟨Int64.toInt_inj.mp (Decimal.integer_inj hlayer), hformat, Snapshot.text_eq_iff.mp htext⟩
  · rintro ⟨rfl, rfl, hgroups⟩
    have htext := Snapshot.text_eq_iff.mpr hgroups
    unfold Snapshot.applicable at htext
    rw [key, key, htext]

theorem key_inj (h : groups.HasFiniteBuffers) (h' : groups'.HasFiniteBuffers)
    (heq : key groups layer format = key groups' layer' format') :
    layer = layer' ∧ format = format' ∧ groups.applicable layer = groups'.applicable layer' := by
  obtain ⟨hlayer, hformat, hgroups⟩ := key_eq_iff.mp heq
  rw [Snapshot.asWritten_of_hasFiniteBuffers (h.applicable layer),
    Snapshot.asWritten_of_hasFiniteBuffers (h'.applicable layer')] at hgroups
  exact ⟨hlayer, hformat, hgroups⟩

end Cache
end FilterForest
