import FramedSasl.Codec

/-! A poll takes bytes from the front of the buffer: it never adds any, and it takes at least one
frame for each performative. -/

namespace FramedSasl.Codec

theorem poll_length_le (c : Codec) : c.poll.codec.buffer.length ≤ c.buffer.length := by
  fun_induction poll c with
  | case1 | case2 => exact Nat.le_refl _
  | case3 c bytes rest hcut | case4 c bytes rest hcut | case6 c bytes rest hcut =>
    have := (cutFrame_length hcut).2
    simp +zetaDelta only
    omega
  | case5 c bytes rest hcut _ _ _ _ _ _ _ _ ih =>
    have := (cutFrame_length hcut).2
    simp +zetaDelta only at ih ⊢
    omega

theorem poll_length_lt {c : Codec} {p : Performative} (h : c.poll.result = .ok (some p)) :
    c.poll.codec.buffer.length < c.buffer.length := by
  fun_induction poll c with
  | case1 | case2 | case3 | case4 => simp at h
  | case5 c bytes rest hcut _ _ _ _ _ _ _ _ ih =>
    have := cutFrame_length hcut
    simp +zetaDelta only [Frame.headerSize] at ih h this ⊢
    have := ih h
    omega
  | case6 c bytes rest hcut =>
    have := cutFrame_length hcut
    simp +zetaDelta only [Frame.headerSize] at this ⊢
    omega

end FramedSasl.Codec
