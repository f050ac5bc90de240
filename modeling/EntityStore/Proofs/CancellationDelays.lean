import EntityStore.Tx.Options
/-!
# When the server gives up

A timeout is cut by two per cent, at least by 50 ms and at most by 100 ms, unless it is shorter than what is cut.  The
two per cent are rounded three times; each rounding keeps to its own bound (`Rounding.binary53_error`,
`Rounding.divHalfUp_le_add`), so that they grow by at most a nanosecond with each nanosecond of the timeout
(`Timeout.cut_le_add`).  A timeout that is cut is therefore never cut below what a shorter one is cut to.  Timeouts
that are left as they are join the others with a fall: `Timeout.cancelAfter_exact` says exactly where.
-/
namespace EntityStore

/-! ## Errors of rounding -/

namespace Rounding

theorem divHalfEven_error {num den : Nat} (hden : 0 < den) :
    2 * (divHalfEven num den * den) ≤ 2 * num + den ∧ 2 * num ≤ 2 * (divHalfEven num den * den) + den := by
  have hsplit : num / den * den + num % den = num := Nat.div_add_mod' num den
  have hrest := Nat.mod_lt num hden
  have hnext : (num / den + 1) * den = num / den * den + den := Nat.succ_mul ..
  unfold divHalfEven
  dsimp only
  split
  · omega
  · split
    · rw [hnext]
      omega
    · split
      · omega
      · rw [hnext]
        omega

/-- **A number of 53 significant bits is off by one part in 2⁵³ at most.** -/
theorem binary53_error (n : Nat) :
    9007199254740992 * binary53 n ≤ 9007199254740992 * n + n ∧
      9007199254740992 * n ≤ 9007199254740992 * binary53 n + n := by
  rcases Nat.lt_or_ge n 9007199254740992 with hsmall | hlarge
  · rw [binary53_of_lt hsmall]
    omega
  · -- the bits that are left out make at most `n / 2 ^ 52`
    have hn : n ≠ 0 := by omega
    have hlog : 53 ≤ n.log2 := (Nat.le_log2 hn).2 hlarge
    have hpow : 4503599627370496 * 2 ^ (n.log2 - 52) = 2 ^ n.log2 := by
      rw [show 4503599627370496 = 2 ^ 52 from rfl, ← Nat.pow_add]
      congr 1
      omega
    have hself : 2 ^ n.log2 ≤ n := Nat.log2_self_le hn
    have herror : 2 * binary53 n ≤ 2 * n + 2 ^ (n.log2 - 52) ∧ 2 * n ≤ 2 * binary53 n + 2 ^ (n.log2 - 52) :=
      divHalfEven_error (Nat.two_pow_pos _)
    omega

theorem divHalfUp_le_add {p q den d : Nat} (hden : 0 < den) (h : q ≤ p + den * d) :
    divHalfUp q den ≤ divHalfUp p den + d := by
  unfold divHalfUp
  rw [← Nat.add_mul_div_left _ _ (by omega : 0 < 2 * den)]
  refine Nat.div_le_div_right ?_
  rw [Nat.mul_assoc]
  omega

end Rounding

/-! ## What is cut -/

namespace Timeout

open Rounding

/-- The two per cent of so many nanoseconds, before they are rounded to a nanosecond; the unit is 2⁻⁵⁸. -/
def product (nanos : Nat) : Nat := binary53 (binary53 nanos * fiftiethSignificand)

theorem nanos_twoPercent (t : Duration) : (twoPercent t).nanos = divHalfUp (product t.nanos) 288230376151711744 := rfl

theorem product_of_lt {nanos : Nat} (h : nanos < 9007199254740992) :
    product nanos = binary53 (nanos * fiftiethSignificand) := by rw [product, binary53_of_lt h]

theorem nanos_cut (t : Duration) :
    (cut t).nanos = min (max (twoPercent t).nanos minCut.nanos) maxCut.nanos := rfl

theorem nanos_minCut : minCut.nanos = 50000000 := rfl

theorem nanos_maxCut : maxCut.nanos = 100000000 := rfl

theorem minCut_le_cut (t : Duration) : minCut.nanos ≤ (cut t).nanos := by
  rw [nanos_cut, nanos_minCut, nanos_maxCut]
  omega

theorem cut_le_maxCut (t : Duration) : (cut t).nanos ≤ maxCut.nanos := Nat.min_le_right ..

theorem cut_of_le_second {t : Duration} (h : t.nanos ≤ 1000000000) : (cut t).nanos = minCut.nanos := by
  have herror := (binary53_error (t.nanos * fiftiethSignificand)).1
  have hfew : (twoPercent t).nanos ≤ 50000000 := by
    rw [nanos_twoPercent, product_of_lt (by omega), divHalfUp]
    unfold fiftiethSignificand at herror ⊢
    omega
  rw [nanos_cut, nanos_minCut, nanos_maxCut]
  omega

theorem lt_of_twoPercent_lt {t : Duration} (h : (twoPercent t).nanos < maxCut.nanos) : t.nanos < 6000000000 := by
  have htime := (binary53_error t.nanos).2
  have hproduct := (binary53_error (binary53 t.nanos * fiftiethSignificand)).2
  rw [nanos_twoPercent, product, divHalfUp, nanos_maxCut] at h
  unfold fiftiethSignificand at h hproduct
  omega

theorem clamp_le_add {a b d least most : Nat} (h : b ≤ a + d) :
    min (max b least) most ≤ min (max a least) most + d := by omega

/-- **The cut grows by at most as much as the timeout**, however the two per cent are rounded. -/
theorem cut_le_add {t u : Duration} (h : t.nanos ≤ u.nanos) :
    (cut u).nanos ≤ (cut t).nanos + (u.nanos - t.nanos) := by
  have hleast := minCut_le_cut t
  have hmost := cut_le_maxCut u
  rw [nanos_minCut] at hleast
  rw [nanos_maxCut] at hmost
  by_cases hfar : t.nanos + 50000000 ≤ u.nanos
  · omega
  · by_cases hcapped : maxCut.nanos ≤ (twoPercent t).nanos
    · -- no more is cut off than off the shorter one
      rw [nanos_cut t, Nat.min_eq_right (Nat.le_trans hcapped (Nat.le_max_left ..)), nanos_maxCut]
      omega
    · -- both are so short that they are exact, and what the product is off is far less than a nanosecond
      have ht := lt_of_twoPercent_lt (Nat.not_le.1 hcapped)
      have hgrowth : (twoPercent u).nanos ≤ (twoPercent t).nanos + (u.nanos - t.nanos) := by
        rcases Nat.eq_or_lt_of_le h with hsame | hless
        · rw [nanos_twoPercent, nanos_twoPercent, hsame]
          exact Nat.le_add_right ..
        · have hlower := (binary53_error (t.nanos * fiftiethSignificand)).2
          have hupper := (binary53_error (u.nanos * fiftiethSignificand)).1
          rw [nanos_twoPercent, nanos_twoPercent, product_of_lt (by omega : t.nanos < 9007199254740992),
            product_of_lt (by omega : u.nanos < 9007199254740992)]
          refine divHalfUp_le_add (by decide) ?_
          unfold fiftiethSignificand at hlower hupper ⊢
          omega
      rw [nanos_cut, nanos_cut]
      exact clamp_le_add hgrowth

/-! ## What is left -/

theorem cancelAfter_of_short {t : Duration} (h : t.nanos < minCut.nanos) : cancelAfter t = t := by
  have := minCut_le_cut t
  unfold cancelAfter
  rw [if_neg (by omega)]

theorem cut_le_of_long {t : Duration} (h : minCut.nanos ≤ t.nanos) : (cut t).nanos ≤ t.nanos := by
  have hmost := cut_le_maxCut t
  rw [nanos_maxCut] at hmost
  rcases Nat.lt_or_ge t.nanos 1000000000 with hshort | hlong
  · rw [cut_of_le_second (by omega)]
    exact h
  · omega

theorem cancelAfter_of_long {t : Duration} (h : minCut.nanos ≤ t.nanos) :
    (cancelAfter t).nanos = t.nanos - (cut t).nanos := by
  unfold cancelAfter
  rw [if_pos (cut_le_of_long h)]

/-- **When the server gives up.**  It is not after the timeout, and at most 100 ms before it.  It is at once only for a
timeout of zero, and for one of 50 ms, of which nothing is left.  It is earlier for the longer of two timeouts exactly
if the shorter one is too short to be cut, and the longer one is cut to less than that. -/
theorem cancelAfter_exact (t : Duration) :
    (cancelAfter t).nanos ≤ t.nanos ∧ t.nanos ≤ (cancelAfter t).nanos + maxCut.nanos ∧
    ((cancelAfter t).nanos = 0 ↔ t.nanos = 0 ∨ t.nanos = minCut.nanos) ∧
    ∀ u : Duration, t.nanos ≤ u.nanos → ((cancelAfter u).nanos < (cancelAfter t).nanos ↔
      t.nanos < minCut.nanos ∧ minCut.nanos ≤ u.nanos ∧ u.nanos < t.nanos + minCut.nanos) := by
  have hleast := minCut_le_cut t
  have hmost := cut_le_maxCut t
  -- what is left of a timeout that is cut, and of one within a second in particular
  have hleft : ∀ u : Duration, minCut.nanos ≤ u.nanos →
      (cancelAfter u).nanos = u.nanos - (cut u).nanos ∧ (cut u).nanos ≤ maxCut.nanos ∧
        (u.nanos ≤ 1000000000 → (cut u).nanos = minCut.nanos) :=
    fun u hu => ⟨cancelAfter_of_long hu, cut_le_maxCut u, cut_of_le_second⟩
  simp only [nanos_minCut, nanos_maxCut] at hleast hmost hleft ⊢
  rcases Nat.lt_or_ge t.nanos minCut.nanos with hshort | hlong
  · rw [cancelAfter_of_short hshort]
    rw [nanos_minCut] at hshort
    refine ⟨by omega, by omega, by omega, fun u htu => ?_⟩
    rcases Nat.lt_or_ge u.nanos minCut.nanos with hu | hu
    · rw [cancelAfter_of_short hu]
      rw [nanos_minCut] at hu
      omega
    · have := hleft u hu
      rw [nanos_minCut] at hu
      omega
  · have ht := hleft t hlong
    rw [nanos_minCut] at hlong
    refine ⟨by omega, by omega, by omega, fun u htu => ?_⟩
    have hu := hleft u (by omega)
    have hgrowth := cut_le_add htu
    have huncut := cut_le_of_long (t := t) hlong
    omega

/-- From 2.5 s on, two per cent are more than the least cut, and still the server gives up no earlier on a timeout that is
a little longer. -/
theorem cancelAfter_exact_beyond : (2500000000 : Nat) ≤ 2500000025 ∧
    ¬(cancelAfter ⟨2500000025⟩).nanos < (cancelAfter ⟨2500000000⟩).nanos :=
  ⟨by decide, fun h => absurd (((cancelAfter_exact ⟨2500000000⟩).2.2.2 ⟨2500000025⟩ (by decide)).1 h).1 (by decide)⟩

/-- A timeout of 60 ms is cut to 10 ms, one of 40 ms is not cut, and of one of 50 ms nothing is left. -/
theorem cancelAfter_falls : cancelAfter (.ofMillis 40) = .ofMillis 40 ∧ cancelAfter (.ofMillis 60) = .ofMillis 10 ∧
    cancelAfter (.ofMillis 50) = .zero := by decide

end Timeout

end EntityStore
