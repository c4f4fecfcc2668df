import Progression.Text.Blank
import Progression.Text.Alphabetic
import Progression.Text.Numeric
import Progression.Text.Word
import Progression.Text.Quoted
import Progression.Name
import Progression.Settings
import Progression.Inventory
import Progression.Age
import Progression.Rule.Parse
import Progression.Rule.Template
import Progression.Rule.Compile
import Progression.Rule.Holds
import Progression.World.Compile
import Progression.World.Start
import Progression.Search.Goals
import Progression.Search.Rewind
import Progression.Search.Spheres
import Progression.Proofs.Subrules
import Progression.Proofs.Grammar
import Progression.Proofs.Operators
import Progression.Proofs.Parsing
import Progression.Proofs.Scanning
import Progression.Proofs.Printing
import Progression.Proofs.RoundTrip
import Progression.Proofs.Fates
import Progression.Proofs.Meaning
import Progression.Proofs.Exploration
import Progression.Proofs.Questions
import Progression.Proofs.Paths
import Progression.Proofs.OneAge
import Progression.Proofs.LeastReach
import Progression.Proofs.Independence
import Progression.Proofs.OnePass
import Progression.Proofs.Orderly
import Progression.Proofs.Rewinding
import Progression.Proofs.Stock
import Progression.Proofs.Growing
import Progression.Proofs.KeyRings
import Progression.Proofs.Foraging
import Progression.Proofs.Collecting
import Progression.Proofs.StartingItems
import Progression.Proofs.Afresh
import Progression.Proofs.Layers
import Progression.Proofs.Handouts
import Progression.Proofs.Additions
import Progression.Proofs.Lowering
import Progression.Proofs.Events
import Progression.Proofs.NormalForms
import Progression.Proofs.Cataloguing
import Progression.Proofs.Rereading
import Progression.Proofs.Spots
import Progression.Proofs.Compilations
import Progression.Proofs.Recompiling
import Progression.Proofs.Constructions
import Progression.Proofs.Rearranging
import Progression.Proofs.GivingBack
import Progression.Proofs.Requests
import Progression.Proofs.Nesting
import Progression.Proofs.Registering
import Progression.Proofs.Looping
import Progression.Proofs.Arithmetic
import Progression.Proofs.Parameters
import Progression.Proofs.Redeclaring
import Progression.Proofs.GoalReports
import Progression.Proofs.Counters
import Progression.Proofs.Thresholds
import Progression.Proofs.Totals
import Progression.Proofs.Spelling
import Progression.Proofs.Slices
import Progression.Proofs.Inquiries
