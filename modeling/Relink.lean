import Relink.Main
import Relink.Proofs.Substitution
import Relink.Proofs.ChangeLog
import Relink.Proofs.Live
import Relink.Proofs.Succession
import Relink.Proofs.Dependence
import Relink.Proofs.Overlapping
import Relink.Proofs.Attribute
import Relink.Proofs.Effect
import Relink.Proofs.Merging
import Relink.Proofs.Ranking
import Relink.Proofs.Extension
import Relink.Proofs.Recognition
import Relink.Proofs.Logging
import Relink.Proofs.Finding
import Relink.Proofs.Narrowing
import Relink.Proofs.Components
import Relink.Proofs.Calling
