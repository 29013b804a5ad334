import CodeAudit.Proofs.Json.RoundTrip
import CodeAudit.Report.Json

/-!
# Reports can be read back

All numbers in findings, results, summaries and entries are integers, and none of them is nested
deep. So what is written of them is read back (`Json.parse?_compact`, `Json.parse?_indented`).
-/
namespace CodeAudit

open Json

variable {d : Nat}

theorem Finding.fits_toJson (f : Finding) (h : 1 ≤ d) : f.toJson.Fits d := by
  rw [Finding.toJson, fits_record]
  exact ⟨h, by simp⟩

theorem Result.fits_of_mem_members {r : Result} {m : String × Json} (hm : m ∈ r.members)
    (h : 2 ≤ d) :
    m.2.Fits d := by
  simp only [Result.members, List.mem_cons, List.not_mem_nil, or_false] at hm
  rcases hm with rfl | rfl | rfl | rfl
  · exact fits_string _
  · exact fits_int _
  · refine fits_ofOption fun fs _ => fits_array.2 ⟨by omega, ?_⟩
    exact List.forall_mem_map.2 fun f _ => f.fits_toJson (by omega)
  · exact fits_string _

theorem Result.fits_toJson (r : Result) (h : 3 ≤ d) : r.toJson.Fits d :=
  fits_record.2 ⟨by omega, fun _ hm => fits_of_mem_members hm (by omega)⟩

theorem Entry.fits_toJson (e : Entry) (h : 4 ≤ d) : e.toJson.Fits d := by
  rw [Entry.toJson, fits_record]
  exact ⟨by omega, by simp [e.result.fits_toJson (show 3 ≤ d - 1 by omega)]⟩

theorem fits_countsJson {α : Type} (label : α → Text) (m : List (α × Int)) (h : 1 ≤ d) :
    (countsJson label m).Fits d := by
  rw [countsJson, fits_object]
  refine ⟨h, fun a ha => ?_⟩
  obtain ⟨b, -, rfl⟩ := List.mem_map.1 ((List.mergeSort_perm _ _).subset ha)
  exact fits_int _

theorem Summary.fits_toJson (s : Summary) (h : 2 ≤ d) : s.toJson.Fits d := by
  rw [Summary.toJson, fits_record]
  have hcounts : 1 ≤ d - 1 := by omega
  exact ⟨by omega, by simp [fits_countsJson _ _ hcounts]⟩

end CodeAudit
