import Dalvik.Main
import Dalvik.Proofs.Annotations
import Dalvik.Proofs.BlankLines
import Dalvik.Proofs.ClassNames
import Dalvik.Proofs.Declined
import Dalvik.Proofs.Defined
import Dalvik.Proofs.Enclosure
import Dalvik.Proofs.Escapes
import Dalvik.Proofs.Fractions
import Dalvik.Proofs.LabelOperands
import Dalvik.Proofs.Layouts
import Dalvik.Proofs.Quoting
import Dalvik.Proofs.Readings
import Dalvik.Proofs.Relays
import Dalvik.Proofs.Switches
import Dalvik.Proofs.Throwing
import Dalvik.Proofs.TypedScripts
import Dalvik.Proofs.Unterminated
import Dalvik.Proofs.Validation
import Dalvik.Proofs.Wrapping
