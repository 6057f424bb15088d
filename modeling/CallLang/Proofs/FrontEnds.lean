/-
  CallLang/Proofs/FrontEnds.lean
  ==============================
  **The front ends agree.**

  A program can be kept in a file, given on the command line, or typed into the
  console.  Each of them says the same about it, under a path of its own.  The
  command line and the console show the value besides, and only the console is not
  ended by a mistake.
-/
import CallLang.Program
import CallLang.Proofs.Recovery
import CallLang.Proofs.Transcripts

namespace CallLang

/-! ### What is asked for -/

namespace CommandLine

end CommandLine

namespace Program

variable {limits : Limits} {color : Bool} {path source : String} {value : Value} {shown : String}

section

variable {bytes : List UInt8} (hpath : path ≠ typedPath) (hnull : '\x00' ∉ path.toList)
  (hbytes : Text.decode bytes = .ok source.toList) (hsource : '\r' ∉ source.toList)

include hpath hnull hbytes hsource

end

end Program

namespace Console

variable {limits : Limits} {source : String} (hline : Command.ofLine source = .program source)
  (hclosed : goesOn source = false) (hsome : isSilent source = false)

include hline hclosed hsome

end Console

/-! ### Agreement -/

end CallLang
