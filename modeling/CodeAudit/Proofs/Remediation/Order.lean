import CodeAudit.Proofs.Scan.Hits
import CodeAudit.Remediation

/-!
# The order in which findings are handed over

Fixes that meet on one line do not commute, so the text that comes out depends on the order in which
they are applied. A remediation puts the findings in order itself, and what it cannot put in order
are findings with the same line and the same place of the rule. Those it takes as they came.

**Results.**
* `remediate_congr`: only the order among findings with one key matters.
* `filter_sameKey_eq_of_perm`: where every key has one finding at most, there is no such order.
* `remediate_perm_scan`: the findings of a scan may be handed over in any order.
-/
namespace CodeAudit

namespace Finding

theorem sameKey_self (f : Finding) : sameKey f f = true := (sameKey_iff f f).2 ⟨rfl, rfl⟩

theorem mem_of_filter_sameKey {as bs : List Finding}
    (h : ∀ f, as.filter (sameKey f) = bs.filter (sameKey f)) {f : Finding} (hf : f ∈ as) :
      f ∈ bs := by
  have hmem : f ∈ as.filter (sameKey f) := List.mem_filter.2 ⟨hf, sameKey_self f⟩
  rw [h f] at hmem
  exact (List.mem_filter.1 hmem).1

/-- What stands first in order comes no later than anything else. -/
theorem not_before_head {a b : Finding} {bs : List Finding}
    (hb : (b :: bs).Pairwise fun x y => ¬ Before y x) (ha : a ∈ b :: bs) : ¬ Before a b := by
  rcases List.mem_cons.1 ha with rfl | hmem
  · unfold Before
    omega
  · exact (List.pairwise_cons.1 hb).1 a hmem

/-- Two lists in order that hold the same findings of each key, in the same order there, are
equal. -/
theorem eq_of_filter_sameKey {as : List Finding} : ∀ {bs : List Finding},
    (as.Pairwise fun a b => ¬ Before b a) → (bs.Pairwise fun a b => ¬ Before b a) →
    (∀ f, as.filter (sameKey f) = bs.filter (sameKey f)) → as = bs := by
  induction as with
  | nil =>
    intro bs _ _ h
    cases bs with
    | nil => rfl
    | cons b bs => cases mem_of_filter_sameKey (fun f => (h f).symm) List.mem_cons_self
  | cons a as ih =>
    intro bs ha hb h
    cases bs with
    | nil => cases mem_of_filter_sameKey h List.mem_cons_self
    | cons b bs =>
      -- Each head is in the other list and so no earlier than its head: they have one key.
      have hab := not_before_head hb (mem_of_filter_sameKey h List.mem_cons_self)
      have hba := not_before_head ha
        (mem_of_filter_sameKey (fun f => (h f).symm) List.mem_cons_self)
      have hkey : sameKey a b = true := by
        rw [sameKey_iff]
        unfold Before at hab hba
        omega
      have hheads := h a
      rw [List.filter_cons_of_pos (sameKey_self a), List.filter_cons_of_pos hkey] at hheads
      obtain rfl : a = b := (List.cons.inj hheads).1
      rw [ih (List.pairwise_cons.1 ha).2 (List.pairwise_cons.1 hb).2 fun f => ?_]
      have hf := h f
      rw [List.filter_cons, List.filter_cons] at hf
      split at hf
      · exact (List.cons.inj hf).2
      · exact hf

theorem mergeSort_eq_of_filter_sameKey {fs gs : List Finding}
    (h : ∀ f, fs.filter (sameKey f) = gs.filter (sameKey f)) :
      fs.mergeSort le = gs.mergeSort le := by
  have hfs := stableOrder_mergeSort fs
  have hgs := stableOrder_mergeSort gs
  refine eq_of_filter_sameKey hfs.sorted hgs.sorted fun f => ?_
  rw [hfs.stable f, hgs.stable f, h f]

theorem sameKey_comm (a b : Finding) : sameKey a b = sameKey b a := by
  rw [Bool.eq_iff_iff, sameKey_iff, sameKey_iff]
  omega

/-- Of findings with distinct keys, at most one has a given key. -/
theorem pairwise_filter_sameKey {fs : List Finding}
    (hdistinct : fs.Pairwise fun a b => sameKey a b = false) (f : Finding) :
    (fs.filter (sameKey f)).Pairwise fun _ _ => False := by
  refine (hdistinct.filter (sameKey f)).imp_of_mem fun {a b} ha hb hne => ?_
  have hfa := (sameKey_iff f a).1 (List.mem_filter.1 ha).2
  have hfb := (sameKey_iff f b).1 (List.mem_filter.1 hb).2
  have hab : sameKey a b = true := by
    rw [sameKey_iff]
    omega
  rw [hab] at hne
  cases hne

/-- Findings with distinct keys have the same findings of each key in every order. -/
theorem filter_sameKey_eq_of_perm {fs gs : List Finding} (hperm : fs.Perm gs)
    (hdistinct : gs.Pairwise fun a b => sameKey a b = false) (f : Finding) :
    fs.filter (sameKey f) = gs.filter (sameKey f) := by
  have hdistinct' : fs.Pairwise fun a b => sameKey a b = false := by
    refine (hperm.pairwise_iff fun {a b} hab => ?_).2 hdistinct
    rw [sameKey_comm]
    exact hab
  exact (hperm.filter (sameKey f)).eq_of_pairwise (fun _ _ _ _ hab _ => hab.elim)
    (pairwise_filter_sameKey hdistinct' f) (pairwise_filter_sameKey hdistinct f)

end Finding

/-- **Ties decide.** Two lists of findings give the same text when they hold the same findings of
each key in the same order, however the keys are mixed. -/
theorem remediate_congr (d : Document) (l : Language) (fixes : Text → Option Fix)
    {fs gs : List Finding}
    (h : ∀ f, fs.filter (Finding.sameKey f) = gs.filter (Finding.sameKey f)) :
    remediate d l fs fixes = remediate d l gs fixes := by
  have hsorted := Finding.mergeSort_eq_of_filter_sameKey h
  have hlength : fs.length = gs.length :=
    calc
      fs.length = (fs.mergeSort Finding.le).length := (List.length_mergeSort fs).symm
      _ = (gs.mergeSort Finding.le).length := by rw [hsorted]
      _ = gs.length := List.length_mergeSort gs
  have hempty : fs.isEmpty = gs.isEmpty := by
    rw [Bool.eq_iff_iff, List.isEmpty_iff_length_eq_zero, List.isEmpty_iff_length_eq_zero, hlength]
  unfold remediate
  rw [hempty, hsorted]

/-- Findings with one key are applied as they came, and then the order shows. -/
example :
    let append (b : UInt8) : Fix := fun lines _ => some (lines.map (· ++ [b]))
    let fixes (id : Text) : Option Fix := id.head?.map append
    let finding (id : Text) : Finding :=
      { (default : Finding) with ruleId := id, line := 1, endLine := 1 }
    remediate ⟨[97]⟩ .general [finding [98], finding [99]] fixes = [97, 98, 99] ∧
      remediate ⟨[97]⟩ .general [finding [99], finding [98]] fixes = [97, 99, 98] := by
  cbv

theorem pairwise_sameKey_of_before {fs : List Finding} (h : fs.Pairwise Finding.Before) :
    fs.Pairwise fun a b => Finding.sameKey a b = false := by
  refine h.imp fun {a b} hab => ?_
  rw [← Bool.not_eq_true, Finding.sameKey_iff]
  unfold Finding.Before at hab
  omega

/-- **Any order will do.** The findings that a catalog reports in a document may be handed over in
any order: the text with their fixes is the same. -/
theorem remediate_perm_scan {rules : List Rule} {disabled : List Text} {c : Catalog}
    (hbuild : Catalog.build rules disabled = .ok c) (o : ScanOptions) (d : Document) (l : Language)
    {findings : List Finding} (hperm : findings.Perm (scan c o d l).findings) :
    remediate d l findings c.fix? = remediate d l (scan c o d l).findings c.fix? := by
  have hstrict := pairwise_before_scan o d l (Catalog.valid_of_build hbuild)
  refine remediate_congr d l c.fix? fun f => ?_
  exact Finding.filter_sameKey_eq_of_perm hperm (pairwise_sameKey_of_before hstrict) f

/-- Two rules add a letter to one line, and the order of the letters is that of the rules also when
the findings come in reverse. -/
theorem letters_in_order_of_rules :
    let rule (b : UInt8) : Rule :=
      { id := [b], category := .injection, name := [110], severity := .high, languages := [],
        matcher := { kind := .line, pattern := some (.literal [97]) }, description := [],
        recommendation := [], fix := some fun lines _ => some (lines.map (· ++ [b])) }
    let c : Catalog := ⟨[rule 98, rule 99], [([99], 1), ([98], 0)]⟩
    let doc : Document := ⟨[97]⟩
    Catalog.build [rule 98, rule 99] [] = .ok c ∧
      (scan c {} doc .general).findings.length = 2 ∧
      remediate doc .general (scan c {} doc .general).findings.reverse c.fix? =
        remediate doc .general (scan c {} doc .general).findings c.fix? ∧
      remediate doc .general (scan c {} doc .general).findings c.fix? = [97, 98, 99] := by
  intro rule c doc
  have hbuild : Catalog.build [rule 98, rule 99] [] = .ok c := rfl
  have hscan : (scan c {} doc .general).findings =
      [(rule 98).finding {} doc 0 ⟨1, 1⟩, (rule 99).finding {} doc 1 ⟨1, 1⟩] :=
    List.mergeSort_of_pairwise (by decide)
  have hperm := remediate_perm_scan hbuild {} doc .general (List.reverse_perm _)
  rw [hscan] at hperm ⊢
  refine ⟨hbuild, rfl, hperm, ?_⟩
  unfold remediate
  rw [List.mergeSort_of_pairwise (by decide)]
  rfl

end CodeAudit
