import SiteBuild.Main
import SiteBuild.Plan.Run
import SiteBuild.Proofs.Embed.ClassMaps
import SiteBuild.Proofs.Glob.Characters
import SiteBuild.Proofs.Json.Formats
import SiteBuild.Proofs.Manifest
import SiteBuild.Proofs.ModuleGraph.Descent
import SiteBuild.Proofs.ModuleGraph.Specifiers
import SiteBuild.Proofs.Optimize.Atomicity
import SiteBuild.Proofs.Optimize.Bundling
import SiteBuild.Proofs.Optimize.Combining
import SiteBuild.Proofs.Optimize.LinkAddress
import SiteBuild.Proofs.Optimize.Metadata
import SiteBuild.Proofs.Optimize.Pages
import SiteBuild.Proofs.Optimize.Pairs
import SiteBuild.Proofs.Optimize.Respelling
import SiteBuild.Proofs.Optimize.Scan
import SiteBuild.Proofs.Optimize.Survival
import SiteBuild.Proofs.Page.Entries
import SiteBuild.Proofs.Plan.Pool
import SiteBuild.Proofs.Script.Spans
import SiteBuild.Proofs.Stylesheet.Lines
