import PathFilter.Files.Basic
import PathFilter.Proofs.Text.Utf8

set_option autoImplicit false
set_option relaxedAutoImplicit false

namespace PathFilter

namespace Files

def Holds (files : Files) (name : FileName) (text : Text) : Prop :=
  files.read name = .ok (Utf8.encode text)

variable {files : Files} {name : FileName} {bytes : Bytes} {text : Text} {failure : ReadFailure}

theorem asText_eq_ok_iff : asText bytes = .ok text ↔ bytes = Utf8.encode text := by
  rw [← Utf8.decode?_eq_some_iff, asText]
  cases Utf8.decode? bytes <;> simp

theorem asText_eq_error_iff :
    asText bytes = .error failure ↔ failure = .notText ∧ ∀ text, bytes ≠ Utf8.encode text := by
  simp only [← Utf8.decode?_eq_some_iff, ne_eq, asText]
  cases Utf8.decode? bytes <;> simp [eq_comm]

theorem readText_eq_ok_iff : files.readText name = .ok text ↔ files.Holds name text := by
  rw [Holds, readText]
  cases files.read name with
  | error failure => simp
  | ok bytes => simp [asText_eq_ok_iff]

end Files

end PathFilter
