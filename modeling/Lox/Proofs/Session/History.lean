import Lox.Proofs.Proper.Sessions

/-!
# Whole sessions stay in order

A new session is in order, every deed keeps it so, and so does any row of deeds
(`Chronicle.performAll_orderly`). The tokens that `P` is asked of are those of the texts that were
put through the stages on the way. Deeds alone do not tell which these are: a line typed in is one
that earlier deeds left unread (`Chronicle.texts`).
-/

namespace Lox

open Eval

namespace Chronicle

/-! ## Texts of a session -/

/-- The texts that deeds put through the stages, in order. -/
def texts : Deeds → Chronicle → List String
  | [], _ => []
  | (fuel, deed) :: deeds, c =>
    (deed.text? c.session).toList ++ texts deeds (c.perform fuel deed).2

/-- The token was scanned from one of the texts. -/
def Scanned (sources : List String) (t : Token) : Prop :=
  ∃ source ∈ sources, t ∈ scanTokens source

/-! ## Deeds in a row -/

variable {P : Token → Prop} {c : Chronicle}

theorem Orderly.later_self (h : c.Orderly P) : c.Later P c :=
  (h.drop (Nat.le_refl _)).toLater

/-- A prompt reads a line and leaves everything else as it is. -/
theorem Orderly.listens (h : c.Orderly P) (deed : Deed) : c.Later P (c.listening deed) := by
  have hself := h.later_self
  cases deed with
  | prompt => exact ⟨h.prompted, hself.sites, hself.grows, hself.roots, hself.known, hself.added⟩
  | _ => exact hself

theorem perform_later (fuel : Nat) (deed : Deed) (h : c.Orderly P)
    (htext : ∀ source ∈ deed.text? c.session, ∀ t ∈ scanTokens source, P t) :
    c.Later P (c.perform fuel deed).2 :=
  (h.listens deed).trans (perform_keeps fuel deed h htext).continues.toLater

/-- Deeds in order keep a session in order. -/
theorem performAll_later (deeds : Deeds) (h : c.Orderly P)
    (htexts : ∀ source ∈ texts deeds c, ∀ t ∈ scanTokens source, P t) :
    c.Later P (performAll deeds c) := by
  induction deeds generalizing c with
  | nil => exact h.later_self
  | cons d deeds ih =>
    obtain ⟨fuel, deed⟩ := d
    have hfirst : c.Later P (c.perform fuel deed).2 :=
      perform_later fuel deed h fun source hs =>
        htexts source (List.mem_append_left _ (Option.mem_toList.mpr hs))
    exact hfirst.trans (ih hfirst.orderly fun source hs =>
      htexts source (List.mem_append_right _ hs))

/-! ## New sessions -/

/-- A new session is in order. -/
theorem start_orderly (P : Token → Prop) (input : Input) (output : Output) (host : Host) :
    (start input output host).Orderly P := by
  have hbare := Machine.start_bare input output host
  have hthere : 0 < (Machine.start input output host).store.frames.size :=
    hbare.size ▸ Nat.one_pos
  refine ⟨⟨⟨hthere, hbare.parent 0, fun frame hlt hne => ?_, fun frame name b hb => ?_,
    fun o name v hv => ?_⟩, hthere⟩, rfl, .nil (Nat.le_refl 0), fun i => ?_,
    fun _ h => (nomatch h), .nil⟩
  · exact absurd (Nat.lt_one_iff.mp (Nat.lt_of_lt_of_eq hlt hbare.size)) hne
  · obtain ⟨n, serial, rfl⟩ := hbare.binding frame name b hb
    trivial
  · cases (hbare.field o name).symm.trans hv
  · exact Std.TreeMap.getElem?_emptyc

variable (input : Input) (output : Output) (host : Host)

/-- Whatever a session was asked to do, it is in order. -/
theorem performAll_orderly (deeds : Deeds) :
    (performAll deeds (start input output host)).Orderly
      (Scanned (texts deeds (start input output host))) :=
  (performAll_later deeds (start_orderly _ input output host) fun source hs _ ht =>
    ⟨source, hs, ht⟩).orderly

end Chronicle

end Lox
